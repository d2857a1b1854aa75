import Shapeware.Cxx

/-!
# Who is let in

`on_validate` compares the host of the URI of a connection. On the server side that URI is built from
the `Host` header of the request, so the client says itself where it comes from. What websocketpp
makes of the headers is a parameter here.
-/

namespace Shapeware.Websocket

/-- The address that a client connects from. -/
inductive PeerAddress
  | v4 (address : BitVec 32)
  | v6 (address : BitVec 128)
deriving DecidableEq

/-- `127.0.0.0/8`, also as a mapped IPv6 address, or `::1`. -/
def PeerAddress.isLoopback : PeerAddress → Bool
  | .v4 address => address.extractLsb' 24 8 = 127#8
  | .v6 address => address = 1#128 ∨
      address.extractLsb' 32 96 = 0xffff#96 ∧ address.extractLsb' 24 8 = 127#8

structure Handshake where
  peer : PeerAddress
  headers : List (StdString × StdString)

def localNames : List StdString := [bytes "localhost", bytes "127.0.0.1", bytes "[::1]"]

/-- `on_validate`, for the value of `m_acceptOnlyLocalhost`. -/
def onValidate (acceptOnlyLocalhost : Bool) (_connId host : StdString) : Bool :=
  if acceptOnlyLocalhost then if host ∈ localNames then true else false else true

/-- The validate handler that `WsServerTyped` sets. -/
def validateHandler (onValidate : Option (StdString → StdString → Bool))
    (connId host : StdString) : Bool :=
  match onValidate with
  | some onValidate => onValidate connId host
  | none => false

section Host

-- the host of the URI that websocketpp builds from the headers of a request
variable (uriHost : List (StdString × StdString) → StdString)

def validates (acceptOnlyLocalhost : Bool) (connId : StdString) (h : Handshake) : Bool :=
  validateHandler (some (onValidate acceptOnlyLocalhost)) connId (uriHost h.headers)

/-- With `acceptOnlyLocalhost` set, a client that is not local is rejected. -/
def LocalOnly (connId : StdString) (h : Handshake) : Prop :=
  h.peer.isLoopback = false → validates uriHost true connId h = false

theorem validates_eq_false_iff {connId : StdString} {h : Handshake} :
    validates uriHost true connId h = false ↔ uriHost h.headers ∉ localNames := by
  simp [validates, validateHandler, onValidate]

theorem localOnly_iff (connId : StdString) (h : Handshake) :
    LocalOnly uriHost connId h ↔
      h.peer.isLoopback = true ∨ uriHost h.headers ∉ localNames := by
  rw [LocalOnly, validates_eq_false_iff, imp_iff_not_or, Bool.not_eq_false]

/-- Wherever a client is, it is let in or not as it likes. -/
theorem client_decides (hname : ∀ name, 58 ∉ name → uriHost [(bytes "Host", name)] = name)
    (connId : StdString) (peer : PeerAddress) :
    (∃ h : Handshake, h.peer = peer ∧ validates uriHost true connId h = true) ∧
      ∃ h : Handshake, h.peer = peer ∧ validates uriHost true connId h = false := by
  constructor
  · refine ⟨⟨peer, [(bytes "Host", bytes "localhost")]⟩, rfl, ?_⟩
    rw [← Bool.not_eq_false, validates_eq_false_iff, hname _ (by decide +kernel)]
    simp [localNames]
  · refine ⟨⟨peer, [(bytes "Host", bytes "a")]⟩, rfl, ?_⟩
    rw [validates_eq_false_iff, hname _ (by decide +kernel)]
    decide +kernel

end Host

def toLower (char : UInt8) : UInt8 := if 65 ≤ char ∧ char ≤ 90 then char + 32 else char

/-- The `Host` header as websocketpp keeps it: names are compared without regard to case, and the
values of headers with the same name are joined. -/
def hostHeader (headers : List (StdString × StdString)) : StdString :=
  (bytes ", ").intercalate
    ((headers.filter fun header => header.1.map toLower = bytes "host").map Prod.snd)

/-- What websocketpp takes for the host: all before the last colon, unless this is inside of the
brackets of an IPv6 address. -/
def hostOfHeader (header : StdString) : StdString :=
  let port := (header.reverse.takeWhile (· ≠ 58)).reverse
  if 58 ∈ header ∧ 93 ∉ port then header.take (header.length - port.length - 1) else header

example : hostOfHeader (bytes "[::1]:1338") = bytes "[::1]" ∧
    hostOfHeader (bytes "[::1]") = bytes "[::1]" := by decide +kernel

/-- A client at `192.0.2.1` that says `Host: localhost:1338`. -/
theorem not_localOnly_remote : ¬ ∀ (connId : StdString) (h : Handshake),
    LocalOnly (fun headers => hostOfHeader (hostHeader headers)) connId h := by
  intro hall
  have hrejected := hall [] ⟨.v4 0xc0000201#32, [(bytes "Host", bytes "localhost:1338")]⟩
    (by decide +kernel)
  exact absurd hrejected (by decide +kernel)

end Shapeware.Websocket
