/-
ArmatureH1.Head — the parsed request head of `head.rs`.

The source caches two pure functions of the target beside it, the index of
the first `?` and the range of an absolute-form authority. Here they are
functions of the target, so the cache cannot be stale.
-/
import ArmatureH1.Header

namespace ArmatureH1

open ByteString

/-- `head::valid_scheme`. -/
def validScheme (scheme : Bytes) : Bool :=
  scheme.head?.any isAsciiAlphabetic
    && scheme.all fun b => isAsciiAlphanumeric b || b == 0x2b || b == 0x2d || b == 0x2e

/-- `find_absolute_authority`: the scheme and the authority of a target in
absolute form. -/
def findAbsoluteAuthority (target : Bytes) : Option (Bytes × Bytes) :=
  match target.head? with
  | none | some 0x2f | some 0x2a => none
  | some _ =>
    match memmem (ascii "://") target with
    | none => none
    | some i =>
      if validScheme (target.take i) then
        let rest := target.drop (i + 3)
        some (target.take i, rest.takeWhile fun b => !(b == 0x2f || b == 0x3f || b == 0x23))
      else none

/-- `Head`. -/
structure Head where
  method : Method
  target : ByteStr
  version : Version
  headers : HeaderVec
  deriving DecidableEq

namespace Head

/-- `Head::get`. -/
def get (h : Head) (id : HeaderId) : Option Bytes := h.headers.get id

/-- `Head::all`. -/
def all (h : Head) (id : HeaderId) : List Bytes := h.headers.all id

/-- `Head::count`. -/
def count (h : Head) (id : HeaderId) : Nat := h.headers.count id

/-- `Head::absolute_scheme`. -/
def absoluteScheme (h : Head) : Option Bytes := (findAbsoluteAuthority h.target.bytes).map Prod.fst

/-- `Head::authority`. -/
def authority (h : Head) : Option Bytes :=
  match findAbsoluteAuthority h.target.bytes with
  | some (_, authority) => some authority
  | none =>
    if h.method = .connect then some h.target.bytes
    else (h.get .host).filter fun v => isUtf8 v && !v.isEmpty

/-- `Head::connection_has_token`. -/
def connectionHasToken (h : Head) (token : Bytes) : Bool :=
  (h.all .connection).any (valueHasToken · token)

/-- `Head::is_keep_alive`. -/
def isKeepAlive (h : Head) : Bool :=
  match h.version with
  | .http11 => !h.connectionHasToken (ascii "close")
  | .http10 => h.connectionHasToken (ascii "keep-alive")

end Head

end ArmatureH1
