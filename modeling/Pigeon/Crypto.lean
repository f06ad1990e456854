import Pigeon.Sealing
import Pigeon.Sequence

/-!
The AEAD channel of the C library (`c/src/crypto.c`): a key and a 64-bit counter for each
direction. The receiver compares the counter of a packet with its own and moves its own once
the packet has opened. `channel_history` relates what it accepts to what the peer sealed.
-/
namespace Pigeon.Crypto
open Octets Sealing Runs Sequence List Option

/-- `ChannelMode`. -/
inductive Mode
  | strict
  | datagrams
deriving DecidableEq

/-- `LE64(seq)` zero-padded to twelve octets. -/
def makeNonce (seq : Bytes) : Bytes := seq ++ [0,0,0,0]

/-- The nonce a channel uses for the message it numbers `seq`. -/
def nonceOf (seq : UInt64) : Bytes := makeNonce (le64 seq)

theorem nonceOf_injective {one two} (same : nonceOf one = nonceOf two) : one = two :=
  le64_injective (append_cancel_right same)

/-- The nonce of a channel's `n`-th encryption. -/
def nonceAt (n : Nat) : Bytes := nonceOf (UInt64.ofNat n)

theorem nonceAt_injective (i j : Nat) (small : i < 2 ^ 64) (small' : j < 2 ^ 64) (same : nonceAt i = nonceAt j) :
    i = j :=
  ofNat_inj_below small small' (nonceOf_injective same)

section
variable (aead : Aead)

/-- The packet that carries `plaintext` as message number `seq`. -/
def packet (key : Key) (seq : UInt64) (plaintext : Bytes) : Bytes :=
  le64 seq ++ aead.encrypt key (nonceOf seq) (le64 seq) plaintext

def opened (key : Key) (data : Bytes) : Option Bytes :=
  aead.decrypt key (makeNonce (data.take 8)) (data.take 8) (data.drop 8)

@[simp] theorem packet_length (key : Key) (seq : UInt64) (plaintext : Bytes) :
    (packet aead key seq plaintext).length = plaintext.length + 24 := by
  simp [packet]; omega

@[simp] theorem readLe64_packet (key : Key) (seq : UInt64) (plaintext : Bytes) :
    readLe64 (packet aead key seq plaintext) = seq := readLe64_le64 seq _

@[simp] theorem opened_packet (key : Key) (seq : UInt64) (plaintext : Bytes) :
    opened aead key (packet aead key seq plaintext) = some plaintext := by
  have front : (packet aead key seq plaintext).take 8 = le64 seq := by
    rw [packet,take_append_of_le_length (by simp),take_of_length_le (by simp)]
  have back : (packet aead key seq plaintext).drop 8 = aead.encrypt key (nonceOf seq) (le64 seq) plaintext := by
    rw [packet,drop_append_of_le_length (by simp),drop_of_length_le (by simp),nil_append]
  rw [opened,front,back]
  exact aead.decrypt_encrypt _ _ _ _

theorem length_of_opened {key data p} (opens : opened aead key data = some p) : data.length = p.length + 24 := by
  have tail := aead.length_of_decrypt opens
  rw [length_drop] at tail
  omega

theorem packet_of_opened {key data p} (opens : opened aead key data = some p) :
    data = packet aead key (readLe64 data) p := by
  have long := length_of_opened aead opens
  have counter : le64 (readLe64 data) = data.take 8 := le64_readLe64 (by omega)
  rw [packet,nonceOf,counter,aead.encrypt_decrypt _ _ _ _ _ opens,take_append_drop]

end

structure Channel where
  (sendKey recvKey : Key)
  (sendSeq recvSeq : UInt64)
  mode : Mode
  established : Bool

/-- `pigeon_channel_init`. -/
def channelInit (sendKey recvKey : Key) (mode : Mode) : Channel where
  sendKey := sendKey
  recvKey := recvKey
  sendSeq := 0
  recvSeq := 0
  mode := mode
  established := true

/-- The sequence check: `strict` wants the counter itself, `datagrams` anything not before it. -/
def admits (mode : Mode) (recvSeq seq : UInt64) : Bool :=
  match mode with
  | .strict => decide (seq = recvSeq)
  | .datagrams => decide (recvSeq ≤ seq)

variable {seq : UInt64}

theorem admits_le {mode recvSeq} (admitted : admits mode recvSeq seq) : recvSeq ≤ seq := by
  cases mode with
  | strict =>
    have same : seq = recvSeq := by simpa [admits] using admitted
    rw [same]; exact UInt64.le_refl _
  | datagrams => simpa [admits] using admitted

theorem admits_self (mode : Mode) (seq : UInt64) : admits mode seq seq := by
  cases mode <;> simp [admits]

theorem admits_max {mode} (admitted : admits mode maxWord seq) : seq = maxWord := by
  by_contra notLast
  have below := toNat_lt_max notLast
  have above := UInt64.le_iff_toNat_le.mp (admits_le admitted)
  have value : maxWord.toNat = 2 ^ 64 - 1 := by decide
  omega

section
variable (aead : Aead)

/-- What `pigeon_channel_encrypt` does to the channel and writes to a buffer of `outLen` octets: the room is checked
    before the counter moves. -/
def channelSeal (ch : Channel) (plaintext : Bytes) (outLen : Nat) : Channel × Option Bytes :=
  if outLen < 8 + plaintext.length + 16 then (ch,none)
  else ({ ch with sendSeq := ch.sendSeq + 1 },some (packet aead ch.sendKey ch.sendSeq plaintext))

/-- `pigeon_channel_encrypt`: the caller sees as much of the buffer as the returned `int` says. -/
def channelEncrypt (ch : Channel) (plaintext : Bytes) (outLen : Nat) : Channel × Option Bytes :=
  ((channelSeal aead ch plaintext outLen).1,(channelSeal aead ch plaintext outLen).2.bind intReturn)

/-- `pigeon_channel_decrypt`. -/
def channelDecrypt (ch : Channel) (data : Bytes) (outLen : Nat) : Channel × Option Bytes :=
  if data.length < 8 + 16 then (ch,none)
  else if admits ch.mode ch.recvSeq (readLe64 data) = false then (ch,none)
  else if outLen < data.length - 8 - 16 then (ch,none)
  else
    match opened aead ch.recvKey data with
    | none => (ch,none)
    | some plaintext =>
      -- `datagrams` compares once more; after the check above it always moves.
      let next := if ch.mode = .strict ∨ ch.recvSeq ≤ readLe64 data then readLe64 data + 1 else ch.recvSeq
      ({ ch with recvSeq := next },intReturn plaintext)

variable {ch : Channel} {plaintext : Bytes} {outLen : Nat}

theorem channelEncrypt_refused
    (large : outLen < 8 + plaintext.length + 16) : channelEncrypt aead ch plaintext outLen = (ch,none) := by
  simp [channelEncrypt,channelSeal,large]

theorem channelEncrypt_room (room : ¬ outLen < 8 + plaintext.length + 16) (short : plaintext.length + 24 < 2 ^ 31) :
    channelEncrypt aead ch plaintext outLen =
      ({ ch with sendSeq := ch.sendSeq + 1 },some (packet aead ch.sendKey ch.sendSeq plaintext)) := by
  have returned : intReturn (packet aead ch.sendKey ch.sendSeq plaintext) = some _ :=
    intReturn_of_lt (by rw [packet_length]; exact short)
  simp [channelEncrypt,channelSeal,room,returned]

theorem channelDecrypt_cases (ch : Channel) (data : Bytes) (outLen : Nat) :
    channelDecrypt aead ch data outLen = (ch,none) ∨
      ∃ p, opened aead ch.recvKey data = some p ∧ admits ch.mode ch.recvSeq (readLe64 data) ∧ p.length ≤ outLen ∧
        channelDecrypt aead ch data outLen = ({ ch with recvSeq := readLe64 data + 1 },intReturn p) := by
  unfold channelDecrypt
  by_cases short : data.length < 8 + 16
  · simp [short]
  · by_cases admitted : admits ch.mode ch.recvSeq (readLe64 data) = true
    · by_cases room : outLen < data.length - 8 - 16
      · simp [room]
      · cases opens : opened aead ch.recvKey data with
        | none => simp
        | some p =>
          have long := length_of_opened aead opens
          refine .inr ⟨p,rfl,admitted,by omega,?_⟩
          simp [short,admitted,room,admits_le admitted]
    · simp [admitted]

theorem channelDecrypt_packet {p} (admitted : admits ch.mode ch.recvSeq seq) (room : p.length ≤ outLen) :
    channelDecrypt aead ch (packet aead ch.recvKey seq p) outLen = ({ ch with recvSeq := seq + 1 },intReturn p) := by
  have fits : ¬ outLen < p.length := by omega
  simp [channelDecrypt,admitted,admits_le admitted,fits]

variable {data : Bytes}

theorem channelDecrypt_not_admitted (outLen : Nat) (refused : admits ch.mode ch.recvSeq (readLe64 data) = false) :
    channelDecrypt aead ch data outLen = (ch,none) := by
  rcases channelDecrypt_cases aead ch data outLen with same | ⟨p,-,admitted,-⟩
  · exact same
  · rw [refused] at admitted; cases admitted

/-- One call of `pigeon_channel_encrypt`: the plaintext and the size of the output buffer. -/
def sealStep (ch : Channel) (call : Bytes × Nat) : Channel × Option Bytes := channelSeal aead ch call.1 call.2

def encryptStep (ch : Channel) (call : Bytes × Nat) : Channel × Option Bytes := channelEncrypt aead ch call.1 call.2

def sent (calls : List (Bytes × Nat)) : List Bytes :=
  (calls.filter (fun call => 8 + call.1.length + 16 ≤ call.2)).map Prod.fst

/-- Messages as packets, numbered on from `seq`. -/
def packetsFrom (key : Key) : UInt64 → List Bytes → List Bytes
  | _, [] => []
  | seq, p :: rest => packet aead key seq p :: packetsFrom key (seq + 1) rest

def packets (ch : Channel) (calls : List (Bytes × Nat)) : List Bytes :=
  (answers (sealStep aead) ch calls).filterMap id

/-- A packet that a call of `pigeon_channel_encrypt` returned, hence one of fewer than 2^31 octets. -/
def Genuine (ch : Channel) (calls : List (Bytes × Nat)) (data : Bytes) : Prop :=
  data ∈ packets aead ch calls ∧ some data ∈ answers (encryptStep aead) ch calls
deriving Decidable

theorem packets_eq (ch : Channel) (calls : List (Bytes × Nat)) :
    packets aead ch calls = packetsFrom aead ch.sendKey ch.sendSeq (sent calls) := by
  induction calls generalizing ch with
  | nil => rfl
  | cons call rest ih =>
    by_cases room : 8 + call.1.length + 16 ≤ call.2
    · have sealed : sealStep aead ch call =
          ({ ch with sendSeq := ch.sendSeq + 1 },some (packet aead ch.sendKey ch.sendSeq call.1)) := by
        rw [sealStep,channelSeal,if_neg (by omega)]
      have kept : sent (call :: rest) = call.1 :: sent rest := by simp [sent,room]
      rw [packets,answers_cons,sealed,filterMap_cons_some (by rfl),kept,packetsFrom]
      exact congrArg _ (ih _)
    · have failed : sealStep aead ch call = (ch,none) := by rw [sealStep,channelSeal,if_pos (by omega)]
      have skipped : sent (call :: rest) = sent rest := by simp [sent,room]
      rw [packets,answers_cons,failed,filterMap_cons_none (by rfl),skipped]
      exact ih ch

theorem packetsFrom_getElem? (key : Key) (n : Nat) (history : List Bytes) (i : Nat) :
    (packetsFrom aead key (UInt64.ofNat n) history)[i]? =
      history[i]?.map (packet aead key (UInt64.ofNat (n + i))) := by
  induction history generalizing n i with
  | nil => simp [packetsFrom]
  | cons p rest ih =>
    cases i with
    | zero => simp [packetsFrom]
    | succ i =>
      rw [packetsFrom,ofNat_succ,getElem?_cons_succ,ih (n + 1) i,getElem?_cons_succ]
      congr 3; omega

theorem mem_packetsFrom {key history} (mem : data ∈ packetsFrom aead key 0 history) (few : history.length < 2 ^ 64) :
    ∃ p, opened aead key data = some p ∧ history[(readLe64 data).toNat]? = some p := by
  obtain ⟨i,found⟩ := mem_iff_getElem?.mp mem
  have numbered := packetsFrom_getElem? aead key 0 history i
  rw [show UInt64.ofNat 0 = 0 from rfl,found,Nat.zero_add] at numbered
  obtain ⟨p,payload,same⟩ := map_eq_some_iff.mp numbered.symm
  have small : i < 2 ^ 64 := by
    have := lt_of_getElem? payload
    omega
  refine ⟨p,by rw [← same,opened_packet],?_⟩
  rw [← same,readLe64_packet,UInt64.toNat_ofNat',Nat.mod_eq_of_lt small,payload]

theorem short_of_returned {calls}
    (returned : some data ∈ answers (encryptStep aead) ch calls) : data.length < 2 ^ 31 := by
  induction calls generalizing ch with
  | nil => simp at returned
  | cons call rest ih =>
    rcases mem_cons.mp returned with here | later
    · obtain ⟨whole,-,taken⟩ := bind_eq_some_iff.mp here.symm
      exact length_of_intReturn taken
    · exact ih later

/-- One call of `pigeon_channel_decrypt` with an input and the size of the buffer; an accepted plaintext is answered
    with the packet's number. -/
def receiveStep (ch : Channel) (input : Bytes × Nat) : Channel × Option (Nat × Bytes) :=
  ((channelDecrypt aead ch input.1 input.2).1,
    (channelDecrypt aead ch input.1 input.2).2.map (fun p => ((readLe64 input.1).toNat,p)))

def accepted (ch : Channel) (inputs : List (Bytes × Nat)) : List (Nat × Bytes) :=
  (answers (receiveStep aead) ch inputs).filterMap id

def Mode.order : Mode → Order
  | .strict => .exact
  | .datagrams => .forward

def item (key : Key) (input : Bytes × Nat) : Option (Nat × Bytes) :=
  (opened aead key input.1).bind
    (fun p => if p.length ≤ input.2 then some ((readLe64 input.1).toNat,p) else none)

theorem admits_order (mode : Mode) (recvSeq seq : UInt64) :
    inOrder mode.order recvSeq.toNat seq.toNat = admits mode recvSeq seq := by
  cases mode with
  | strict => simp [inOrder,admits,Mode.order,UInt64.toNat_inj]
  | datagrams => simp [inOrder,admits,Mode.order,UInt64.le_iff_toNat_le]

/-- An input that opens only if it is short enough for an `int` and numbered before the last number. -/
def Tame (key : Key) (input : Bytes × Nat) : Prop :=
  ∀ p, opened aead key input.1 = some p → p.length < 2 ^ 31 ∧ (readLe64 input.1).toNat < 2 ^ 64 - 1

variable {input : Bytes × Nat}

theorem receiveStep_item (tame : Tame aead ch.recvKey input) : (receiveStep aead ch input).2 =
        (receive ch.mode.order ch.recvSeq.toNat (item aead ch.recvKey input)).2 ∧
      (receiveStep aead ch input).1.recvSeq.toNat =
        (receive ch.mode.order ch.recvSeq.toNat (item aead ch.recvKey input)).1 := by
  rcases channelDecrypt_cases aead ch input.1 input.2 with refused | ⟨p,opens,admitted,room,took⟩
  · have nothing : (receive ch.mode.order ch.recvSeq.toNat (item aead ch.recvKey input)) = (ch.recvSeq.toNat,none) := by
      cases opens : opened aead ch.recvKey input.1 with
      | none => simp [item,opens,receive]
      | some p =>
        by_cases room : p.length ≤ input.2
        · by_cases admitted : admits ch.mode ch.recvSeq (readLe64 input.1) = true
          · -- A packet that opens, fits and is admitted cannot have been refused.
            have short := (tame p opens).1
            rw [packet_of_opened aead opens,channelDecrypt_packet aead admitted room,intReturn_of_lt short] at refused
            simp at refused
          · simp [item,opens,room,receive,admits_order,admitted]
        · simp [item,opens,room,receive]
    simp [receiveStep,refused,nothing]
  · obtain ⟨short,low⟩ := tame p opens
    have next : (readLe64 input.1 + 1).toNat = (readLe64 input.1).toNat + 1 :=
      toNat_succ (fun last => absurd low (by rw [last]; decide))
    simp [receiveStep,took,item,opens,room,receive,admits_order,admitted,intReturn_of_lt short,next]

theorem receiveStep_fixed (ch : Channel) (input : Bytes × Nat) :
    (receiveStep aead ch input).1.recvKey = ch.recvKey ∧ (receiveStep aead ch input).1.mode = ch.mode := by
  rcases channelDecrypt_cases aead ch input.1 input.2 with refused | ⟨p,-,-,-,took⟩
  · simp [receiveStep,refused]
  · simp [receiveStep,took]

theorem receiveStep_refused (tame : Tame aead ch.recvKey input)
    (refused : (receiveStep aead ch input).2 = none) : (receiveStep aead ch input).1 = ch := by
  rcases channelDecrypt_cases aead ch input.1 input.2 with same | ⟨p,opens,-,-,took⟩
  · simp [receiveStep,same]
  · simp [receiveStep,took,intReturn_of_lt (tame p opens).1] at refused

theorem accepted_eq_taken {inputs} (tame : ∀ input ∈ inputs, Tame aead ch.recvKey input) :
    accepted aead ch inputs = taken ch.mode.order ch.recvSeq.toNat (inputs.map (item aead ch.recvKey)) := by
  have same : answers (receiveStep aead) ch inputs =
      answers (fun next input => receive ch.mode.order next (item aead ch.recvKey input)) ch.recvSeq.toNat inputs := by
    refine (answers_simulated (R := fun c next => c.recvKey = ch.recvKey ∧ c.mode = ch.mode ∧ c.recvSeq.toNat = next)
      ?_ ⟨rfl,rfl,rfl⟩ (along_of_forall tame)).1
    rintro c next input ⟨key,mode,rfl⟩ tameHere
    obtain ⟨answer,counter⟩ := receiveStep_item aead (key.symm ▸ tameHere)
    obtain ⟨keyKept,modeKept⟩ := receiveStep_fixed aead c input
    rw [key,mode] at answer counter
    exact ⟨answer,keyKept.trans key,modeKept.trans mode,counter⟩
  rw [accepted,same,answers_map,taken]

def Unforged (key : Key) (peer : Channel) (calls inputs : List (Bytes × Nat)) : Prop :=
  ∀ input ∈ inputs, (opened aead key input.1).isSome → Genuine aead peer calls input.1
deriving Decidable

section
variable {aead}
variable {sendKey recvKey : Key} {mode : Mode} {calls inputs : List (Bytes × Nat)}

theorem history_of_genuine {p} (few : (sent calls).length < 2 ^ 64)
    (genuine : Genuine aead (channelInit recvKey sendKey mode) calls data) (opens : opened aead recvKey data = some p) :
    (sent calls)[(readLe64 data).toNat]? = some p := by
  have mem := genuine.1
  rw [packets_eq] at mem
  obtain ⟨q,same,payload⟩ := mem_packetsFrom aead mem few
  cases (same.symm.trans opens : some q = some p)
  exact payload

section
variable (few : (sent calls).length < 2 ^ 64 - 1)
  (unforged : Unforged aead recvKey (channelInit recvKey sendKey mode) calls inputs)
include few unforged

theorem tame_of_unforged : ∀ input ∈ inputs, Tame aead recvKey input := by
  intro input mem p opens
  have genuine := unforged input mem (by simp [opens])
  have short := short_of_returned aead genuine.2
  have long := length_of_opened aead opens
  have payload := history_of_genuine (by omega) genuine opens
  have inside := lt_of_getElem? payload
  exact ⟨by omega,by omega⟩

theorem taken_genuine (order : Order) (next : Nat) :
    ∀ it ∈ taken order next (inputs.map (item aead recvKey)), (sent calls)[it.1]? = some it.2 := by
  intro it mem
  obtain ⟨input,among,same⟩ := mem_map.mp (taken_mem mem)
  obtain ⟨p,opens,fits⟩ := bind_eq_some_iff.mp same
  by_cases room : p.length ≤ input.2
  · simp only [room,if_true,some.injEq] at fits
    rw [← fits]
    exact history_of_genuine (by omega) (unforged input among (by simp [opens])) opens
  · simp [room] at fits

end

/-- What a fresh channel accepts from an adversary that cannot forge, when the peer has sealed fewer than `2 ^ 64 - 1`
    messages. -/
theorem channel_history (few : (sent calls).length < 2 ^ 64 - 1)
    (unforged : Unforged aead recvKey (channelInit recvKey sendKey mode) calls inputs) :
    (mode = .strict → (accepted aead (channelInit sendKey recvKey mode) inputs).map Prod.snd <+: sent calls) ∧
    (mode = .datagrams → ((accepted aead (channelInit sendKey recvKey mode) inputs).map Prod.fst).Pairwise (· < ·) ∧
      ((accepted aead (channelInit sendKey recvKey mode) inputs).map Prod.snd).Sublist (sent calls) ∧
      ∀ it ∈ accepted aead (channelInit sendKey recvKey mode) inputs, (sent calls)[it.1]? = some it.2) ∧
    Along (receiveStep aead)
      (fun ch input => (receiveStep aead ch input).2 = none → (receiveStep aead ch input).1 = ch)
      (channelInit sendKey recvKey mode) inputs := by
  have tame := tame_of_unforged few unforged
  have genuine := taken_genuine few unforged mode.order 0
  have same : accepted aead (channelInit sendKey recvKey mode) inputs =
      taken mode.order 0 (inputs.map (item aead recvKey)) := accepted_eq_taken aead tame
  rw [same]
  refine ⟨?_,?_,?_⟩
  · rintro rfl
    exact payloads_of_consecutive (exact_consecutive 0 _) genuine
  · rintro rfl
    obtain ⟨increasing,low⟩ := forward_increasing 0 (inputs.map (item aead recvKey))
    exact ⟨increasing,payloads_of_increasing increasing low genuine,genuine⟩
  · -- The key stays, so every input is tame in the state it meets.
    have along : Along (receiveStep aead) (fun ch input => ch.recvKey = recvKey ∧ Tame aead recvKey input)
        (channelInit sendKey recvKey mode) inputs :=
      along_of_invariant (fun ch input key => (receiveStep_fixed aead ch input).1.trans key) rfl tame
    exact along_mono (fun ch input here => receiveStep_refused aead (here.1.symm ▸ here.2)) along

end

end

/-! A run of three messages in which the second packet comes before the first,
the first comes twice and one input is forged. -/

def threeCalls : List (Bytes × Nat) := [([1],64),([2,2],64),([],10),([3],64)]

def shuffledInputs : List (Bytes × Nat) :=
  [(packet checked keyB 1 [2,2],64),(packet checked keyB 0 [1],64),(packet checked keyB 0 [1],64),
    (le64 1 ++ replicate 17 9,64),(packet checked keyB 1 [2,2],0),(packet checked keyB 2 [3],64)]

theorem channel_history_shuffled : accepted checked (channelInit keyA keyB .strict) shuffledInputs = [(0,[1])] ∧
    (accepted checked (channelInit keyA keyB .strict) shuffledInputs).map Prod.snd <+: sent threeCalls ∧
    accepted checked (channelInit keyA keyB .datagrams) shuffledInputs = [(1,[2,2]),(2,[3])] ∧
    ((accepted checked (channelInit keyA keyB .datagrams) shuffledInputs).map Prod.snd).Sublist (sent threeCalls) := by
  refine ⟨by decide +kernel,?_,by decide +kernel,?_⟩
  · exact (channel_history (by decide +kernel) (by decide +kernel)).1 rfl
  · exact ((channel_history (by decide +kernel) (by decide +kernel)).2.1 rfl).2.1

end Pigeon.Crypto
