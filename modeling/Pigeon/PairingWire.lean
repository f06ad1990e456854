import Pigeon.KeySchedule

/-!
The messages of the pairing ceremony of the C library (`pairing.c`, `crypto.c`):
JSON objects with a few string fields, found by scanning for the quoted key, and
keys in base64. Also the commitment that the initiator sends before its key, and
the confirmation code that both sides show.
-/
namespace Pigeon.PairingWire
open Octets Sealing KeySchedule

def b64Table : Bytes := "ABCDEFGHIJKLMNOPQRSTUVWXYZabcdefghijklmnopqrstuvwxyz0123456789+/"

def b64Char (value : Nat) : UInt8 := b64Table.getD value 0

/-- `b64_encode`. -/
def b64Encode : Bytes → Bytes
  | [] => []
  | [b0] => [b64Char (b0.toNat / 4),b64Char (b0.toNat % 4 * 16),61,61]
  | [b0,b1] => [b64Char (b0.toNat / 4),b64Char (b0.toNat % 4 * 16 + b1.toNat / 16),b64Char (b1.toNat % 16 * 4),61]
  | b0 :: b1 :: b2 :: rest =>
    b64Char (b0.toNat / 4) :: b64Char (b0.toNat % 4 * 16 + b1.toNat / 16) ::
      b64Char (b1.toNat % 16 * 4 + b2.toNat / 64) :: b64Char (b2.toNat % 64) :: b64Encode rest

def b64DecodeChar (c : UInt8) : Option Nat :=
  if 65 ≤ c ∧ c ≤ 90 then some (c.toNat - 65)
  else if 97 ≤ c ∧ c ≤ 122 then some (c.toNat - 97 + 26)
  else if 48 ≤ c ∧ c ≤ 57 then some (c.toNat - 48 + 52)
  else if c = 43 then some 62
  else if c = 47 then some 63
  else none

/-- The octets of one group; a third or fourth character that is not of the alphabet counts as missing. -/
def b64Group (v0 v1 : Nat) (v2 v3 : Option Nat) : Bytes :=
  [UInt8.ofNat (v0 * 4 + v1 / 16)] ++
    (v2.map (fun v => UInt8.ofNat (v1 % 16 * 16 + v / 4))).toList ++
    (v3.map (fun v => UInt8.ofNat ((v2.getD 3) % 4 * 64 + v))).toList

def b64Groups : Bytes → Option Bytes
  | [] => some []
  | [_] => none
  | [c0,c1] => do
    let v0 ← b64DecodeChar c0
    let v1 ← b64DecodeChar c1
    return b64Group v0 v1 none none
  | [c0,c1,c2] => do
    let v0 ← b64DecodeChar c0
    let v1 ← b64DecodeChar c1
    return b64Group v0 v1 (b64DecodeChar c2) none
  | c0 :: c1 :: c2 :: c3 :: rest => do
    let v0 ← b64DecodeChar c0
    let v1 ← b64DecodeChar c1
    let more ← b64Groups rest
    return b64Group v0 v1 (b64DecodeChar c2) (b64DecodeChar c3) ++ more

/-- `b64_decode`. -/
def b64Decode (src : Bytes) (cap : Nat) : Option Bytes :=
  (b64Groups (src.reverse.dropWhile (· = 61)).reverse).filter (·.length ≤ cap)

/-- What `json_find_string_field` leaves in a zeroed buffer, and whether it returns a length. -/
structure Field where
  octets : Bytes
  found : Bool

def skipBlanks (json : Bytes) : Bytes := json.dropWhile (fun c => c = 32 ∨ c = 9 ∨ c = 10 ∨ c = 13)

def stringAfterKey (json : Bytes) : Option Bytes :=
  match skipBlanks json with
  | 58 :: value =>
    match skipBlanks value with
    | 34 :: content => some content
    | _ => none
  | _ => none

def findString (search : Bytes) : Bytes → Option Bytes
  | [] => none
  | c :: rest =>
    if search.isPrefixOf (c :: rest) then
      match stringAfterKey ((c :: rest).drop search.length) with
      | some content => some content
      | none => findString search rest
    else findString search rest

/-- `json_find_string_field` with a buffer of `outCap` octets. A string that is too long leaves its beginning. -/
def jsonFindStringField (json key : Bytes) (outCap : Nat) : Field :=
  match findString ([34] ++ key ++ [34]) json with
  | none => ⟨[],false⟩
  | some content =>
    let value := content.takeWhile (· ≠ 34)
    if outCap < value.length + 1 then ⟨value.take (outCap - 1),false⟩ else ⟨value,true⟩

def stringField (json : Bytes) (key : String) (outCap : Nat) : Option Bytes :=
  let field := jsonFindStringField json (ascii key) outCap
  if field.found then some (cstr field.octets) else none

def keyOfOctets (octets : Bytes) : Option Key := if h : octets.length = 32 then some ⟨octets,h⟩ else none

theorem keyOfOctets_bytes (key : Key) : keyOfOctets key.bytes = some key := dif_pos key.length

def keyField (json : Bytes) (key : String) : Option Key := do
  let text ← stringField json key 64
  let octets ← b64Decode text 32
  keyOfOctets octets

def instanceField (json : Bytes) : Bytes := cstr (jsonFindStringField json "instance_id" 64).octets

def helloJson (commit identityPub : Key) (instanceId : Bytes) : Bytes :=
  "\x7b\"kind\":\"hello\",\"commit\":\"" ++ b64Encode commit.bytes ++ "\",\"identity_pub\":\"" ++
    b64Encode identityPub.bytes ++ "\",\"instance_id\":\"" ++ instanceId ++ "\"\x7d"

def welcomeJson (ephPub identityPub : Key) (instanceId : Bytes) : Bytes :=
  "\x7b\"kind\":\"welcome\",\"eph_pub\":\"" ++ b64Encode ephPub.bytes ++ "\",\"identity_pub\":\"" ++
    b64Encode identityPub.bytes ++ "\",\"instance_id\":\"" ++ instanceId ++ "\"\x7d"

def revealJson (ephPub blind : Key) : Bytes :=
  "\x7b\"kind\":\"reveal\",\"eph_pub\":\"" ++ b64Encode ephPub.bytes ++ "\",\"blind\":\"" ++
    b64Encode blind.bytes ++ "\"\x7d"

def confirmJson : Bytes := "\x7b\"kind\":\"confirm\"\x7d"

def pigeonMaxMsg : Nat := 1048576

/-- `snprintf` into a buffer of `PIGEON_MAX_MSG` octets. -/
def printed (text : Bytes) : Option Bytes := if pigeonMaxMsg ≤ text.length then none else some text

/-- `build_hello`. -/
def buildHello (commit identityPub : Key) (instanceId : Bytes) : Option Bytes :=
  printed (helloJson commit identityPub (cstr instanceId))

/-- `build_welcome`. -/
def buildWelcome (ephPub identityPub : Key) (instanceId : Bytes) : Option Bytes :=
  printed (welcomeJson ephPub identityPub (cstr instanceId))

/-- `build_reveal`. -/
def buildReveal (ephPub blind : Key) : Option Bytes := printed (revealJson ephPub blind)

/-- `build_confirm`. -/
def buildConfirm : Option Bytes := printed confirmJson

def sasCommit (sha256 : Bytes → Key) (ephPub blind : Key) : Key :=
  sha256 (ascii "pigeon-sas-commit" ++ ephPub.bytes ++ blind.bytes)

/-- `memcmp(a, b) <= 0`. -/
def memcmpLe : Bytes → Bytes → Bool
  | [], _ => true
  | _ :: _, [] => false
  | a :: as, b :: bs => if a < b then true else if b < a then false else memcmpLe as bs

def sixDigits (value : Nat) : Bytes := (List.range 6).map (fun i => UInt8.ofNat (48 + value / 10 ^ (5 - i) % 10))

/-- `pigeon_derive_confirmation_code`. -/
def deriveConfirmationCode (hmac : Bytes → Bytes → Key) (pubA pubB : Key) : Option Bytes := do
  let ikm := if memcmpLe pubA.bytes pubB.bytes then pubA.bytes ++ pubB.bytes else pubB.bytes ++ pubA.bytes
  let derived ← hkdfSha256 hmac ikm "pairing-confirmation" 32
  return sixDigits (ofBe (derived.bytes.take 4) % 1000000)

end Pigeon.PairingWire
