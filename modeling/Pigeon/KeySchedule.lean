import Pigeon.Crypto

/-!
Key derivation: `hkdf_sha256` of the C library, the directional session keys of
an activation, and the labels under which a session forks a key for each stream
name and one for its datagrams (`cwire/connect.go`, `pigeon.c`). The labels of
different names differ, and none is the datagram label.
-/
namespace Pigeon.KeySchedule
open Octets Sealing Crypto

def ascii (text : String) : Bytes := text.toList.map (fun c => UInt8.ofNat c.toNat)

scoped instance : Coe String Bytes := ⟨ascii⟩

section
variable (hmac : Bytes → Bytes → Key)

/-- `hkdf_sha256`. -/
def hkdfSha256 (ikm info : Bytes) (outLen : Nat) : Option Key :=
  if 32 < outLen then none
  else if 255 < info.length then none
  else some (hmac (hmac (List.replicate 32 0) ikm).bytes (info ++ [1]))

/-- `ExpandKey`. -/
def diversifyKey (base : Key) (info : Bytes) : Option Key := hkdfSha256 hmac base.bytes info 32

/-- The key that `diversifyKey` returns when the label is short enough. -/
def forkKey (base : Key) (info : Bytes) : Key := hmac (hmac (List.replicate 32 0) base.bytes).bytes (info ++ [1])

theorem diversifyKey_eq (base : Key) (info : Bytes) :
    diversifyKey hmac base info = if info.length ≤ 255 then some (forkKey hmac base info) else none := by
  by_cases short : info.length ≤ 255
  · simp [diversifyKey,hkdfSha256,forkKey,short]
  · simp [diversifyKey,hkdfSha256,short]

end

def aeadStreamInfoPrefix : Bytes := "pigeon/v1/stream:"
def aeadDatagramInfo : Bytes := "pigeon/v1/datagram"

/-- The label of the stream called `name`; the primary stream has the empty name. -/
def streamInfo (name : Bytes) : Bytes := aeadStreamInfoPrefix ++ name

@[simp] theorem streamInfo_length (name : Bytes) : (streamInfo name).length = name.length + 17 := by
  have fixed : aeadStreamInfoPrefix.length = 17 := by decide
  rw [streamInfo,List.length_append,fixed]
  omega

theorem streamInfo_injective {one two} (same : streamInfo one = streamInfo two) : one = two :=
  List.append_cancel_left same

theorem streamInfo_ne_datagram (name : Bytes) : streamInfo name ≠ aeadDatagramInfo := by
  intro same
  have front := congrArg (List.take 17) same
  rw [streamInfo,List.take_append_of_le_length (by decide)] at front
  exact absurd front (by decide)

def CollisionFree (hmac : Bytes → Bytes → Key) (bases : List Key) (labels : List Bytes) : Prop :=
  ∀ base ∈ bases, ∀ base' ∈ bases, ∀ info ∈ labels, ∀ info' ∈ labels,
    forkKey hmac base info = forkKey hmac base' info' → base = base' ∧ info = info'
deriving Decidable

theorem collisionFree_mono {hmac bases labels more}
    (free : CollisionFree hmac bases more) (sub : labels ⊆ more) : CollisionFree hmac bases labels :=
  fun base among base' among' info inside info' inside' =>
    free base among base' among' info (sub inside) info' (sub inside')

structure SessionMaterial where
  (sendKey recvKey : Key)
deriving DecidableEq

def SessionMaterial.swap (m : SessionMaterial) : SessionMaterial := ⟨m.recvKey,m.sendKey⟩

section
variable (hmac : Bytes → Bytes → Key)

/-- `SessionMaterial.StreamChannel`. -/
def streamChannel (m : SessionMaterial) (name : Bytes) : Option Channel := do
  let sk ← diversifyKey hmac m.sendKey (streamInfo name)
  let rk ← diversifyKey hmac m.recvKey (streamInfo name)
  return channelInit sk rk .strict

/-- `SessionMaterial.DatagramChannel`. -/
def datagramChannel (m : SessionMaterial) : Option Channel := do
  let sk ← diversifyKey hmac m.sendKey aeadDatagramInfo
  let rk ← diversifyKey hmac m.recvKey aeadDatagramInfo
  return channelInit sk rk .datagrams

theorem streamChannel_eq (m : SessionMaterial) (name : Bytes) : streamChannel hmac m name =
      if name.length ≤ 238 then
        some (channelInit (forkKey hmac m.sendKey (streamInfo name)) (forkKey hmac m.recvKey (streamInfo name)) .strict)
      else none := by
  by_cases short : name.length ≤ 238
  · have fits : name.length + 17 ≤ 255 := by omega
    simp [streamChannel,diversifyKey_eq,short,fits]
  · have large : ¬ name.length + 17 ≤ 255 := by omega
    simp [streamChannel,diversifyKey_eq,short,large]

theorem datagramChannel_eq (m : SessionMaterial) : datagramChannel hmac m =
      some (channelInit (forkKey hmac m.sendKey aeadDatagramInfo) (forkKey hmac m.recvKey aeadDatagramInfo) .datagrams) := by
  have fits : aeadDatagramInfo.length ≤ 255 := by decide
  simp [datagramChannel,diversifyKey_eq,fits]

end

end Pigeon.KeySchedule
