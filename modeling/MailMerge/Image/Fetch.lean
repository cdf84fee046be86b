import MailMerge.Data.Shown
import MailMerge.Image.Address
import MailMerge.Settings

/-! Fetching images. The network is a table of answers; a fetch follows redirections and refuses
what is no success, too large or empty.
-/
namespace MailMerge

/-- What the network answers to a request. -/
inductive Reply where
  /-- a status, the address in a redirection's header, and the body -/
  | response (status : Nat) (location : Option String) (body : ByteArray)
  /-- no answer, for a reason -/
  | failure (reason : String)
  deriving Inhabited

/-- The answers of the network by address. -/
abbrev Network := String → Reply

namespace Network

/-- A network on which nothing can be reached. -/
def down : Network := fun _ => .failure "unreachable"

/-- The statuses that redirect a request. -/
def isRedirection (status : Nat) : Bool :=
  [301, 302, 303, 307, 308].contains status

/-- The first character of an address that cannot be sent, with its position. -/
def unsendable? (address : String) : Option (Char × Nat) :=
  address.toList.zipIdx.find? fun (c, _) => c.toNat < 0x20 || c.toNat == 0x7F

/-- The address that a redirection leads to. -/
def redirected (address location : String) : String :=
  match Address.read? address, Address.read? location with
  | some a, some b => (a.resolve b).text
  | _, _ => location

/-- The last answer after at most `count` redirections. -/
def follow (net : Network) (count : Nat) (address : String) : Reply :=
  match net (Address.requested address) with
  | .response status (some location) body =>
    if isRedirection status then
      match count with
      | 0 => .failure "Exceeded maximum allowed redirects."
      | count + 1 => net.follow count (redirected address location)
    else .response status (some location) body
  | reply => reply

/-- Fetches an image. -/
def fetch (net : Network) (s : Settings) (address : String) : Except Fault ByteArray :=
  match unsendable? address with
  | some (c, i) => .error (.fetchFailed address
      ("Invalid non-printable ASCII character in URL, " ++ Text.quoted (String.singleton c) ++
        s!" at position {i}."))
  | none =>
    match net.follow 20 address with
    | .failure reason => .error (.fetchFailed address reason)
    | .response status _ body =>
      if status < 200 || 300 ≤ status then .error (.fetchStatus status address)
      else if s.maxImageSize < body.size && body.size != 0 then
        .error (.imageTooLarge s.maxImageSize address)
      else if body.size == 0 then .error (.emptyImage address)
      else .ok body

end Network
end MailMerge
