/-
ArmatureH1.Vocabulary — the types every other module speaks: the string
type of `bytestr.rs`, the limits of `limits.rs`, the method and version of
`method.rs`.

Lengths and counters are `Nat`. `Limits.max_body_bytes` is a `u64` in the
source and code depends on that (chunk sizes are added to it with a checked
addition), so the bound is a field of the structure. The deadlines of
`Limits` are not here: time is an event in this development, not a number.
-/
import ArmatureH1.Lib.Bytes
import Mathlib.Algebra.GroupWithZero.Nat

namespace ArmatureH1

open ByteString

/-! ## `bytestr.rs` -/

/-- `ByteStr`: bytes that are known to be UTF-8. -/
structure ByteStr where
  bytes : Bytes
  utf8 : isUtf8 bytes = true
  deriving DecidableEq

/-- `ByteStr::from_utf8`. -/
def ByteStr.fromUtf8 (bs : Bytes) : Option ByteStr :=
  if h : isUtf8 bs = true then some ⟨bs, h⟩ else none

/-- The string of an ASCII literal, as `ByteStr::from_static` makes it. -/
def ByteStr.literal (s : String) (h : isAscii (ascii s) = true := by decide) : ByteStr :=
  ⟨ascii s, isUtf8_of_isAscii h⟩

/-! ## `limits.rs` -/

/-- The size limits of `Limits`. -/
structure Limits where
  maxHeadBytes : Nat
  maxHeaders : Nat
  maxBodyBytes : Nat
  maxBodyBytes_lt : maxBodyBytes < 2 ^ 64

/-- `Limits::default`. -/
def Limits.default : Limits where
  maxHeadBytes := 16 * 1024
  maxHeaders := 96
  maxBodyBytes := 2 * 1024 * 1024
  maxBodyBytes_lt := by decide

/-! ## `method.rs` -/

/-- `Method`. -/
inductive Method where
  | get | head | post | put | delete | connect | options | trace | patch | query
  | other (token : ByteStr)
  deriving DecidableEq

/-- `Method::from_bytes`. Methods are case-sensitive. -/
def Method.fromBytes (token : Bytes) : Option Method :=
  match token.length with
  | 3 =>
    if token = ascii "GET" then some .get
    else if token = ascii "PUT" then some .put
    else none
  | 4 =>
    if token = ascii "HEAD" then some .head
    else if token = ascii "POST" then some .post
    else none
  | 5 =>
    if token = ascii "PATCH" then some .patch
    else if token = ascii "TRACE" then some .trace
    else if token = ascii "QUERY" then some .query
    else none
  | 6 => if token = ascii "DELETE" then some .delete else none
  | 7 =>
    if token = ascii "CONNECT" then some .connect
    else if token = ascii "OPTIONS" then some .options
    else none
  | _ => none

/-- `Version`. -/
inductive Version where
  | http10 | http11
  deriving DecidableEq, Repr

/-- `Version::from_httparse`: the minor version byte. -/
def Version.fromHttparse (minor : Nat) : Option Version :=
  match minor with
  | 0 => some .http10
  | 1 => some .http11
  | _ => none

/-- `Version::as_bytes`. -/
def Version.asBytes : Version → Bytes
  | .http10 => ascii "HTTP/1.0"
  | .http11 => ascii "HTTP/1.1"

end ArmatureH1
