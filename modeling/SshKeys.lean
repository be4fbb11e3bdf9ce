import SshKeys.Main
import SshKeys.Proofs.PrivateKey.RoundTrip
import SshKeys.Proofs.PublicKey
import SshKeys.Proofs.KeyPair
import SshKeys.Proofs.FileSystem.Change
import SshKeys.Proofs.FileSystem.Descending
import SshKeys.Proofs.AuthorizedKeys.Managed
import SshKeys.Proofs.AuthorizedKeys.Options
import SshKeys.Proofs.KeyFiles.Writing
import SshKeys.Proofs.AuthorizedKeys.Adding
import SshKeys.Proofs.AuthorizedKeys.Reading
import SshKeys.Proofs.AuthorizedKeys.Listing
import SshKeys.Proofs.AuthorizedKeys.Repeating
import SshKeys.Proofs.AuthorizedKeys.Fresh
import SshKeys.Proofs.KeyFiles.ReadBack
import SshKeys.Proofs.CommandLine.Console
import SshKeys.Proofs.CommandLine.Inspect
import SshKeys.Proofs.Wire.Sequence
import SshKeys.Proofs.FileSystem.Frame
import SshKeys.Proofs.KeyFiles.Saving
import SshKeys.Proofs.CommandLine.Generate
import SshKeys.Proofs.PublicKey.Grammar
import SshKeys.Proofs.AuthorizedKeys.Normal
import SshKeys.Proofs.Der.Reading
import SshKeys.Proofs.Rsa.PrivateKeyInfo
import SshKeys.Proofs.KeyFiles.Exposure
import SshKeys.Proofs.Der.Extension
import SshKeys.Proofs.Rsa.Layout
import SshKeys.Proofs.Rsa.Nesting
import SshKeys.Proofs.Rsa.Truncation
import SshKeys.Proofs.Wire.Extension
import SshKeys.Proofs.PrivateKey.PrefixFree
import SshKeys.Proofs.Wire.TwosComplement
import SshKeys.Proofs.Wire.Position
import SshKeys.Proofs.AuthorizedKeys.Lines
import SshKeys.Proofs.KeyFiles.Securing
import SshKeys.Proofs.Der.Offsets
import SshKeys.Proofs.Der.Ending
import SshKeys.Proofs.CommandLine.Order
