import SshKeys.CommandLine.Commands
import SshKeys.Proofs.CommandLine.Console
import SshKeys.Proofs.FileSystem.Change
import SshKeys.Proofs.PrivateKey.RoundTrip

/-!
What is shown of a private key does not depend on its secrets.

Two keys are alike if they have the same public fields and as many octets in
the others. Then the two private sections are of one length, so the padding is
the same, and all else that is shown is public.
-/

namespace SshKeys

namespace KeyMaterial

/-- Fields with one public part, and with as many octets in what is secret. -/
inductive Alike : KeyMaterial → KeyMaterial → Prop
  | ed25519 (point : Bytes) {secret secret' : Bytes} (h : secret.length = secret'.length) :
      Alike (.ed25519 point secret) (.ed25519 point secret')
  | rsa (n e : Bytes) {d iqmp p q d' iqmp' p' q' : Bytes}
      (h : d.length + iqmp.length + p.length + q.length =
        d'.length + iqmp'.length + p'.length + q'.length) :
      Alike (.rsa n e d iqmp p q) (.rsa n e d' iqmp' p' q')

namespace Alike

variable {fields fields' : KeyMaterial}

theorem keyType_eq (h : Alike fields fields') : fields.keyType = fields'.keyType := by
  cases h <;> rfl

theorem description_eq (h : Alike fields fields') : fields.description = fields'.description := by
  cases h <;> rfl

theorem fieldLines_eq (h : Alike fields fields') :
    CommandLine.fieldLines fields = CommandLine.fieldLines fields' := by
  cases h with
  | ed25519 point hsecret => rw [CommandLine.fieldLines, CommandLine.fieldLines, hsecret]
  | rsa n e => rfl

theorem length_encode_eq (h : Alike fields fields') :
    (Wire.encode (fields.toList.map .string)).length =
      (Wire.encode (fields'.toList.map .string)).length := by
  cases h with
  | ed25519 point hsecret =>
      simp only [toList, List.map_cons, List.map_nil, Wire.encode_cons, Wire.encode_nil,
        Wire.Item.encode, List.length_append, Wire.length_string, hsecret]
  | rsa n e hlengths =>
      simp only [toList, List.map_cons, List.map_nil, Wire.encode_cons, Wire.encode_nil,
        Wire.Item.encode, List.length_append, Wire.length_string, List.length_nil]
      omega

/-- The private sections are of one length, whatever the check-ints. -/
theorem length_checkedSection_eq (h : Alike fields fields') (check check' : UInt32)
    (comment : Text) :
    (PrivateKey.checkedSection check fields.keyType fields.toList comment).length =
      (PrivateKey.checkedSection check' fields'.keyType fields'.toList comment).length := by
  rw [PrivateKey.length_checkedSection, PrivateKey.length_checkedSection, h.keyType_eq,
    h.length_encode_eq]

end Alike

end KeyMaterial

namespace Ed25519

theorem alike_fields (point seed seed' : KeyOctets) :
    (fields seed point).Alike (fields seed' point) := by
  apply KeyMaterial.Alike.ed25519
  rw [List.length_append, List.length_append, seed.property, seed'.property]

end Ed25519

namespace Rsa

variable {key key' : Components}

/-- How many octets the secret components are written with. -/
def secretLength (key : Components) : Nat :=
  (Wire.encode [.mpint key.d, .mpint key.qi, .mpint key.p, .mpint key.q]).length

theorem alike_fields (hn : key.n.toNat = key'.n.toNat) (he : key.e.toNat = key'.e.toNat)
    (hlength : secretLength key = secretLength key') : (fields key).Alike (fields key') := by
  rw [fields, fields, Wire.mpintBody_eq_of_toNat_eq hn, Wire.mpintBody_eq_of_toNat_eq he]
  apply KeyMaterial.Alike.rsa
  simp only [secretLength, Wire.encode_cons, Wire.encode_nil, Wire.Item.encode, Wire.mpint,
    List.length_append, Wire.length_string, List.length_nil] at hlength
  omega

theorem keyData_eq (hn : key.n.toNat = key'.n.toNat) (he : key.e.toNat = key'.e.toNat) :
    keyData key.n key.e = keyData key'.n key'.e := by
  simp only [keyData, Wire.encode_cons, Wire.Item.encode, Wire.mpint,
    Wire.mpintBody_eq_of_toNat_eq hn, Wire.mpintBody_eq_of_toNat_eq he]

end Rsa

namespace CommandLine

open PrivateKey

variable {env env' : Environment} {fs : FileSystem} {file text text' : Text} {key : PrivateKey}
  {fields fields' : KeyMaterial}

theorem run_inspect (hread : fs.readText file = .ok text) (hdecode : decode text = .ok key)
    (input output : Text) :
    ((Command.inspect file).run env input).run.run ⟨fs, output⟩ =
      (.ok (), ⟨fs, output ++ Armor.unlines (inspection env file key)⟩) := by
  have hlook : (Run.look fun fs => (fs.readText file).mapError .io).run.run ⟨fs, output⟩ =
      (.ok text, ⟨fs, output⟩) := Run.run_look_of_ok (mapError_eq_ok_iff.2 hread)
  have hinspect : (inspect env file).run.run ⟨fs, output⟩ =
      (.ok (), ⟨fs, output ++ Armor.unlines (inspection env file key)⟩) := by
    rw [inspect, run_run_bind_of_ok hlook, run_run_bind_of_ok (Run.run_lift_of_ok hdecode _),
      Run.run_writeLines]
  have hstart : ((Command.inspect file).start env).run.run ⟨fs, output⟩ =
      (.ok none, ⟨fs, output ++ Armor.unlines (inspection env file key)⟩) := by
    rw [Command.start, run_run_bind_of_ok hinspect]
    rfl
  rw [Command.run, run_run_bind_of_ok hstart]
  rfl

theorem inspection_written_eq (h : fields.Alike fields') (hcolor : env.color = env'.color)
    (file : Text) (publicData : Bytes) (check check' : UInt32) (comment : Text) :
    inspection env file (written publicData check fields comment) =
      inspection env' file (written publicData check' fields' comment) := by
  simp only [inspection, written, if_pos]
  rw [h.length_checkedSection_eq check check' comment, h.keyType_eq, h.fieldLines_eq, hcolor]

/-- What is shown of two private keys does not tell them apart. -/
structure ShownAlike (text text' : Text) : Prop where
  description : ∃ key key', decode text = .ok key ∧ decode text' = .ok key' ∧
    key.fields.description = key'.fields.description
  output {env env' : Environment} {fs fs' : FileSystem} {file : Text} (input input' : Text)
    (hcolor : env.color = env'.color) (hread : fs.readText file = .ok text)
    (hread' : fs'.readText file = .ok text') :
    ∃ output, ((Command.inspect file).run env input).run.run ⟨fs, []⟩ = (.ok (), ⟨fs, output⟩) ∧
      ((Command.inspect file).run env' input').run.run ⟨fs', []⟩ = (.ok (), ⟨fs', output⟩)

theorem shownAlike_armored (h : fields.Alike fields') {publicData : Bytes}
    (check check' : UInt32) (comment : Text) (hpublic : publicData.length < UInt32.size)
    (hsection : (pad (checkedSection check fields.keyType fields.toList comment)).length <
      UInt32.size) :
    ShownAlike
      (armored publicData (checkedSection check fields.keyType fields.toList comment))
      (armored publicData (checkedSection check' fields'.keyType fields'.toList comment)) := by
  have hsection' : (pad (checkedSection check' fields'.keyType fields'.toList comment)).length <
      UInt32.size := by
    rw [pad, List.length_append, h.length_checkedSection_eq check check' comment] at hsection
    rwa [pad, List.length_append]
  have hdecode := decode_armored check fields comment hpublic hsection
  have hdecode' := decode_armored check' fields' comment hpublic hsection'
  constructor
  · exact ⟨_, _, hdecode, hdecode', h.description_eq⟩
  · intro env env' fs fs' file input input' hcolor hread hread'
    refine ⟨_, run_inspect hread hdecode input [], ?_⟩
    rw [run_inspect hread' hdecode' input' [],
      inspection_written_eq h hcolor file publicData check check' comment]

/-- Keys with one public half and one comment are shown alike, whatever their secrets. -/
theorem shownAlike_privateKeyText :
    (∀ (point seed seed' : Ed25519.KeyOctets) (comment : Text) (check check' : UInt32),
      (pad (checkedSection check Ed25519.algorithm (Ed25519.fields seed point).toList
        comment)).length < UInt32.size →
      ShownAlike (Ed25519.privateKeyText seed point comment check)
        (Ed25519.privateKeyText seed' point comment check')) ∧
    (∀ (key key' : Rsa.Components) (comment : Text) (check check' : UInt32),
      key.n.toNat = key'.n.toNat → key.e.toNat = key'.e.toNat →
      Rsa.secretLength key = Rsa.secretLength key' →
      (pad (checkedSection check Rsa.algorithm (Rsa.fields key).toList comment)).length <
        UInt32.size →
      ShownAlike (Rsa.privateKeyText key comment check)
        (Rsa.privateKeyText key' comment check')) := by
  constructor
  · intro point seed seed' comment check check' hsection
    have hpublic : (Ed25519.keyData point).length < UInt32.size := by
      rw [Ed25519.length_keyData]
      decide
    exact shownAlike_armored (Ed25519.alike_fields point seed seed') check check' comment hpublic
      hsection
  · intro key key' comment check check' hn he hlength hsection
    rw [Rsa.privateKeyText, Rsa.privateKeyText, ← Rsa.keyData_eq hn he]
    exact shownAlike_armored (Rsa.alike_fields hn he hlength) check check' comment
      (Rsa.length_keyData_lt hsection) hsection

/-- Two seeds and two check-ints, in files that are read, and two RSA keys whose primes have changed
places, the second one with its modulus written in more octets. -/
theorem shownAlike_privateKeyText_swapped :
    let point : Ed25519.KeyOctets := ⟨List.replicate 32 0xfe, rfl⟩
    let seed : Ed25519.KeyOctets := ⟨List.replicate 32 0x11, rfl⟩
    let seed' : Ed25519.KeyOctets := ⟨List.replicate 32 0x80, rfl⟩
    let files (text : Text) := FileSystem.empty.put ["k".toList] (.file 0o600 text.utf8)
    let fs := files (Ed25519.privateKeyText seed point ['c'] 1)
    let fs' := files (Ed25519.privateKeyText seed' point ['c'] 2)
    let key : Rsa.Components := {
      n := [0x80, 1]
      e := [1, 0, 1]
      d := [5]
      p := [0x7f, 0xff]
      q := [3]
      dp := []
      dq := []
      qi := [2] }
    let key' : Rsa.Components := {
      n := [0, 0, 0x80, 1]
      e := [1, 0, 1]
      d := [0xff]
      p := [3]
      q := [0x7f]
      dp := [9]
      dq := []
      qi := [0, 4] }
    (∀ env, ∃ output,
      ((Command.inspect "k".toList).run env []).run.run ⟨fs, []⟩ = (.ok (), ⟨fs, output⟩) ∧
      ((Command.inspect "k".toList).run env []).run.run ⟨fs', []⟩ = (.ok (), ⟨fs', output⟩)) ∧
    ShownAlike (Rsa.privateKeyText key ['c'] 3) (Rsa.privateKeyText key' ['c'] 4) := by
  intro point seed seed' files fs fs' key key'
  have hsection : (pad (checkedSection 1 Ed25519.algorithm (Ed25519.fields seed point).toList
      ['c'])).length < UInt32.size := by decide +kernel
  have hsection' : (pad (checkedSection 3 Rsa.algorithm (Rsa.fields key).toList
      ['c'])).length < UInt32.size := by decide +kernel
  have hread (text : Text) : (files text).readText "k".toList = .ok text :=
    FileSystem.readText_of_stat rfl
  constructor
  · intro env
    have hshown := shownAlike_privateKeyText.1 point seed seed' ['c'] 1 2 hsection
    exact hshown.output [] [] rfl (hread _) (hread _)
  · exact shownAlike_privateKeyText.2 key key' ['c'] 3 4 (by decide) (by decide) (by decide)
      hsection'

end CommandLine

end SshKeys
