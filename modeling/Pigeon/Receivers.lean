import Pigeon.Crypto

/-!
The receivers of the other ports: `crypto.Channel` in Go, and `E2EChannel` in
Swift and in TypeScript. All three move their counter before they open a packet,
where the C library moves it after. The first part is about the Go receiver on
its own (`goDecrypt_replay_free`), the second compares the four
(`receivers_agree_iff`).
-/
namespace Pigeon.Receivers
open Octets Sealing Runs Sequence Crypto List

/-- `Channel`. -/
structure GoChannel where
  (sendKey recvKey : Key)
  (sendSeq recvSeq : UInt64)
  mode : Mode

def newChannel (sendKey recvKey : Key) (mode : Mode) : GoChannel := ⟨sendKey,recvKey,0,0,mode⟩

section
variable (aead : Aead)

/-- `Channel.Encrypt`. -/
def goEncrypt (ch : GoChannel) (plaintext : Bytes) : GoChannel × Bytes :=
  ({ ch with sendSeq := ch.sendSeq + 1 },packet aead ch.sendKey ch.sendSeq plaintext)

/-- `Channel.Decrypt`. -/
def goDecrypt (ch : GoChannel) (data : Bytes) : GoChannel × Option Bytes :=
  if data.length < 8 then (ch,none)
  else
    match ch.mode with
    | .strict =>
      if readLe64 data ≠ ch.recvSeq then (ch,none)
      else ({ ch with recvSeq := ch.recvSeq + 1 },opened aead ch.recvKey data)
    | .datagrams =>
      if readLe64 data < ch.recvSeq then (ch,none)
      else ({ ch with recvSeq := readLe64 data + 1 },opened aead ch.recvKey data)

def Passes (mode : Mode) (recvSeq : UInt64) (data : Bytes) : Prop :=
  8 ≤ data.length ∧ admits mode recvSeq (readLe64 data) = true
deriving Decidable

variable {ch : GoChannel}

theorem goDecrypt_eq (ch : GoChannel) (data : Bytes) : goDecrypt aead ch data =
      if Passes ch.mode ch.recvSeq data then ({ ch with recvSeq := readLe64 data + 1 },opened aead ch.recvKey data)
      else (ch,none) := by
  by_cases short : data.length < 8
  · simp [goDecrypt,Passes,short,Nat.not_le.mpr short]
  · cases mode : ch.mode with
    | strict =>
      by_cases number : readLe64 data = ch.recvSeq
      · simp [goDecrypt,Passes,admits,mode,short,number,Nat.not_lt.mp short]
      · simp [goDecrypt,Passes,admits,mode,number]
    | datagrams =>
      by_cases number : readLe64 data < ch.recvSeq
      · simp [goDecrypt,Passes,admits,mode,number]
      · simp [goDecrypt,Passes,admits,mode,short,number,Nat.not_lt.mp short,UInt64.not_lt.mp number]

theorem goDecrypt_passes {data} (passes : Passes ch.mode ch.recvSeq data) :
    goDecrypt aead ch data = ({ ch with recvSeq := readLe64 data + 1 },opened aead ch.recvKey data) := by
  rw [goDecrypt_eq,if_pos passes]

theorem goDecrypt_stopped {data} (stopped : ¬ Passes ch.mode ch.recvSeq data) :
    goDecrypt aead ch data = (ch,none) := by
  rw [goDecrypt_eq,if_neg stopped]

theorem goDecrypt_fixed (ch : GoChannel) (data : Bytes) :
    (goDecrypt aead ch data).1.recvKey = ch.recvKey ∧ (goDecrypt aead ch data).1.mode = ch.mode := by
  by_cases passes : Passes ch.mode ch.recvSeq data
  · simp [goDecrypt_passes aead passes]
  · simp [goDecrypt_stopped aead passes]

theorem passes_packet (mode : Mode) (key : Key) (seq : UInt64) (p : Bytes) :
    Passes mode seq (packet aead key seq p) := by
  exact ⟨by simp,by rw [readLe64_packet]; exact admits_self mode seq⟩

theorem goDecrypt_expected (ch : GoChannel) :
    (goDecrypt aead ch (packet aead ch.recvKey ch.recvSeq [])).2 = some [] := by
  rw [goDecrypt_passes aead (passes_packet aead ch.mode ch.recvKey ch.recvSeq []),opened_packet]

/-- It is stopped before the counter moves, opens and is not the last number, or leaves the counter. -/
def Harmless (ch : GoChannel) (data : Bytes) : Prop :=
  Passes ch.mode ch.recvSeq data →
    if (opened aead ch.recvKey data).isSome then readLe64 data ≠ maxWord else readLe64 data + 1 = ch.recvSeq
deriving Decidable

theorem counter_shows (ch : GoChannel) {other} (differ : other ≠ ch.recvSeq) :
    ∃ seq, (goDecrypt aead { ch with recvSeq := other } (packet aead ch.recvKey seq [])).2 ≠
      (goDecrypt aead ch (packet aead ch.recvKey seq [])).2 := by
  have takes := goDecrypt_passes aead (passes_packet aead ch.mode ch.recvKey ch.recvSeq [])
  have takes' : goDecrypt aead { ch with recvSeq := other } (packet aead ch.recvKey other []) = _ :=
    goDecrypt_passes aead (passes_packet aead ch.mode ch.recvKey other [])
  by_cases ahead : Passes ch.mode other (packet aead ch.recvKey ch.recvSeq [])
  · -- The moved counter takes the packet the channel expects: it lies before, and takes its own packet too.
    refine ⟨other,?_⟩
    have behind : ¬ Passes ch.mode ch.recvSeq (packet aead ch.recvKey other []) := by
      rintro ⟨-,admitted⟩
      have admitted' := ahead.2
      cases mode : ch.mode with
      | strict => simp [admits,mode] at admitted; exact differ admitted
      | datagrams =>
        simp only [admits,mode,readLe64_packet,decide_eq_true_eq] at admitted admitted'
        exact differ (UInt64.le_antisymm admitted' admitted)
    rw [takes',goDecrypt_stopped aead behind]
    simp
  · refine ⟨ch.recvSeq,?_⟩
    have refused : goDecrypt aead { ch with recvSeq := other } (packet aead ch.recvKey ch.recvSeq []) = _ :=
      goDecrypt_stopped aead ahead
    rw [takes,refused]
    simp

theorem unseen_iff_harmless {data} (fails : opened aead ch.recvKey data = none) :
    (∀ later, answers (goDecrypt aead) (goDecrypt aead ch data).1 later = answers (goDecrypt aead) ch later) ↔
      Harmless aead ch data := by
  constructor
  · intro unseen passes
    simp only [fails,Option.isSome_none,Bool.false_eq_true,if_false]
    by_contra moved
    rw [goDecrypt_passes aead passes] at unseen
    obtain ⟨seq,shows⟩ := counter_shows aead ch moved
    have same := unseen [packet aead ch.recvKey seq []]
    simp only [answers_cons,answers_nil,cons.injEq] at same
    exact shows same.1
  · intro harmless later
    by_cases passes : Passes ch.mode ch.recvSeq data
    · have stays := harmless passes
      simp only [fails,Option.isSome_none,Bool.false_eq_true,if_false] at stays
      rw [goDecrypt_passes aead passes,stays]
    · rw [goDecrypt_stopped aead passes]

/-- `goDecrypt` with an accepted packet as the answer, under its number. -/
def goReceive (ch : GoChannel) (data : Bytes) : GoChannel × Option (Nat × Bytes) :=
  ((goDecrypt aead ch data).1,(goDecrypt aead ch data).2.map (fun _ => ((readLe64 data).toNat,data)))

def goAccepted (ch : GoChannel) (inputs : List Bytes) : List (Nat × Bytes) :=
  (answers (goReceive aead) ch inputs).filterMap id

theorem final_goReceive (ch : GoChannel) (inputs : List Bytes) :
    final (goReceive aead) ch inputs = final (goDecrypt aead) ch inputs := by
  induction inputs generalizing ch with
  | nil => rfl
  | cons data rest ih => exact ih (goDecrypt aead ch data).1

def numbered (key : Key) (data : Bytes) : Option (Nat × Bytes) :=
  (opened aead key data).map (fun _ => ((readLe64 data).toNat,data))

theorem goReceive_numbered {data} (harmless : Harmless aead ch data) :
    (goReceive aead ch data).2 = (receive ch.mode.order ch.recvSeq.toNat (numbered aead ch.recvKey data)).2 ∧
      (goReceive aead ch data).1.recvSeq.toNat =
        (receive ch.mode.order ch.recvSeq.toNat (numbered aead ch.recvKey data)).1 := by
  by_cases passes : Passes ch.mode ch.recvSeq data
  · have kind := harmless passes
    cases opens : opened aead ch.recvKey data with
    | none =>
      simp only [opens,Option.isSome_none,Bool.false_eq_true,if_false] at kind
      simp [goReceive,goDecrypt_passes aead passes,numbered,opens,receive,kind]
    | some p =>
      simp only [opens,Option.isSome_some,if_true] at kind
      have next : (readLe64 data + 1).toNat = (readLe64 data).toNat + 1 := toNat_succ kind
      simp [goReceive,goDecrypt_passes aead passes,numbered,opens,receive,admits_order,passes.2,next]
  · cases opens : opened aead ch.recvKey data with
    | none => simp [goReceive,goDecrypt_stopped aead passes,numbered,opens,receive]
    | some p =>
      have long := length_of_opened aead opens
      have refused : ¬ admits ch.mode ch.recvSeq (readLe64 data) = true := fun admitted => passes ⟨by omega,admitted⟩
      simp [goReceive,goDecrypt_stopped aead passes,numbered,opens,receive,admits_order,refused]

variable {inputs : List Bytes}

theorem goAccepted_eq_taken (along : Along (goReceive aead) (Harmless aead) ch inputs) :
    goAccepted aead ch inputs = taken ch.mode.order ch.recvSeq.toNat (inputs.map (numbered aead ch.recvKey)) := by
  have same : answers (goReceive aead) ch inputs =
      answers (fun next data => receive ch.mode.order next (numbered aead ch.recvKey data)) ch.recvSeq.toNat inputs := by
    refine (answers_simulated (R := fun c next => c.recvKey = ch.recvKey ∧ c.mode = ch.mode ∧ c.recvSeq.toNat = next)
      ?_ ⟨rfl,rfl,rfl⟩ along).1
    rintro c next data ⟨key,mode,rfl⟩ harmless
    obtain ⟨answer,counter⟩ := goReceive_numbered aead harmless
    obtain ⟨keyKept,modeKept⟩ := goDecrypt_fixed aead c data
    rw [key,mode] at answer counter
    exact ⟨answer,keyKept.trans key,modeKept.trans mode,counter⟩
  rw [goAccepted,same,answers_map,taken]

theorem goAccepted_nodup (along : Along (goReceive aead) (Harmless aead) ch inputs) :
    ((goAccepted aead ch inputs).map Prod.snd).Nodup := by
  rw [goAccepted_eq_taken aead along]
  have numbers := taken_nodup ch.mode.order ch.recvSeq.toNat (inputs.map (numbered aead ch.recvKey))
  have tied : ∀ it ∈ taken ch.mode.order ch.recvSeq.toNat (inputs.map (numbered aead ch.recvKey)),
      it.1 = (readLe64 it.2).toNat := by
    intro it mem
    obtain ⟨data,-,same⟩ := mem_map.mp (taken_mem mem)
    obtain ⟨p,-,pair⟩ := Option.map_eq_some_iff.mp same
    rw [← pair]
  -- The number is read off the packet, so equal packets would repeat a number.
  apply Nodup.of_map (fun data => (readLe64 data).toNat)
  rw [map_congr_left tied] at numbers
  rw [map_map]
  exact numbers

/-- In a run of harmless inputs each packet is accepted at most once and no failure changes later answers; an input
    that fails is without effect only if it is harmless. -/
theorem goDecrypt_replay_free (sendKey recvKey : Key) (mode : Mode) :
    (∀ inputs, Along (goReceive aead) (Harmless aead) (newChannel sendKey recvKey mode) inputs →
      ((goAccepted aead (newChannel sendKey recvKey mode) inputs).map Prod.snd).Nodup ∧
      ∀ before data after, inputs = before ++ data :: after → opened aead recvKey data = none →
        ∀ later, answers (goDecrypt aead)
            (final (goDecrypt aead) (newChannel sendKey recvKey mode) (before ++ [data])) later =
          answers (goDecrypt aead) (final (goDecrypt aead) (newChannel sendKey recvKey mode) before) later) ∧
    ∀ ch data, opened aead ch.recvKey data = none →
      ((∀ later, answers (goDecrypt aead) (goDecrypt aead ch data).1 later = answers (goDecrypt aead) ch later) ↔
        Harmless aead ch data) := by
  refine ⟨?_,fun ch data fails => unseen_iff_harmless aead fails⟩
  intro inputs along
  refine ⟨goAccepted_nodup aead along,?_⟩
  rintro before data after rfl fails later
  rw [along_append] at along
  have key : (final (goDecrypt aead) (newChannel sendKey recvKey mode) before).recvKey = recvKey :=
    final_invariant (I := fun ch => ch.recvKey = recvKey)
      (fun ch x same _ => (goDecrypt_fixed aead ch x).1.trans same) rfl (along_of_forall (fun _ _ => trivial))
  have harmless : Harmless aead (final (goDecrypt aead) (newChannel sendKey recvKey mode) before) data := by
    rw [← final_goReceive]
    exact along.2.1
  rw [final_append,final_cons,final_nil]
  exact (unseen_iff_harmless aead (by rw [key]; exact fails)).mpr harmless later

end

theorem goDecrypt_replay_free_redelivered : ((goAccepted checked (newChannel keyA keyB .datagrams)
      [packet checked keyB 0 [1],[9,9],packet checked keyB 0 [1],packet checked keyB 3 [2]]).map Prod.snd).Nodup :=
  ((goDecrypt_replay_free checked keyA keyB .datagrams).1 _ (by decide +kernel)).1

/-- Twenty-four octets under the number `seq` that open under no key used here. -/
def forged (seq : UInt64) : Bytes := le64 seq ++ replicate 16 255

def firstPacket (mode : Mode) : Bytes := (goEncrypt checked (newChannel keyB keyA mode) [7]).2

/-- In strict mode a forgery keeps the genuine packet out; in datagram mode one under the last number lets a packet in
    again. -/
theorem goDecrypt_forgery : opened checked keyB (forged 0) = none ∧ opened checked keyB (forged maxWord) = none ∧
    answers (goDecrypt checked) (newChannel keyA keyB .strict) [firstPacket .strict] = [some [7]] ∧
    answers (goDecrypt checked) (newChannel keyA keyB .strict) [forged 0,firstPacket .strict] = [none,none] ∧
    answers (goDecrypt checked) (newChannel keyA keyB .datagrams)
      [firstPacket .datagrams,forged maxWord,firstPacket .datagrams] = [some [7],none,some [7]] := by
  decide +kernel

/-- `E2EChannel` of the Swift port, receiving. Its arithmetic traps on overflow. -/
structure SwiftChannel where
  recvKey : Key
  recvSeq : UInt64
  mode : Mode
  trapped : Bool

/-- `E2EChannel` of the TypeScript port, the receiving side. The counter is a `bigint`. -/
structure TsChannel where
  recvKey : Key
  recvSeq : Nat
  mode : Mode

section
variable (aead : Aead)

/-- `counter + 1`, or a trap. -/
def swiftAdvance (ch : SwiftChannel) (counter : UInt64) (result : Option Bytes) : SwiftChannel × Option Bytes :=
  if counter = maxWord then ({ ch with trapped := true },none)
  else ({ ch with recvSeq := counter + 1 },result)

/-- `E2EChannel.decrypt` of the Swift module. -/
def swiftDecrypt (ch : SwiftChannel) (data : Bytes) : SwiftChannel × Option Bytes :=
  if ch.trapped then (ch,none)
  else if data.length < 8 + 16 then (ch,none)
  else
    match ch.mode with
    | .strict =>
      if readLe64 data ≠ ch.recvSeq then (ch,none)
      else swiftAdvance ch ch.recvSeq (opened aead ch.recvKey data)
    | .datagrams =>
      if readLe64 data < ch.recvSeq then (ch,none)
      else swiftAdvance ch (readLe64 data) (opened aead ch.recvKey data)

/-- `E2EChannel.decrypt` of the web module. -/
def tsDecrypt (ch : TsChannel) (data : Bytes) : TsChannel × Option Bytes :=
  if data.length < 8 then (ch,none)
  else
    match ch.mode with
    | .strict =>
      if (readLe64 data).toNat ≠ ch.recvSeq then (ch,none)
      else ({ ch with recvSeq := ch.recvSeq + 1 },opened aead ch.recvKey data)
    | .datagrams =>
      if (readLe64 data).toNat < ch.recvSeq then (ch,none)
      else ({ ch with recvSeq := (readLe64 data).toNat + 1 },opened aead ch.recvKey data)

theorem swiftDecrypt_passes {ch data} (running : ch.trapped = false)
    (long : 24 ≤ data.length) (admitted : admits ch.mode ch.recvSeq (readLe64 data)) :
    swiftDecrypt aead ch data = swiftAdvance ch (readLe64 data) (opened aead ch.recvKey data) := by
  obtain ⟨recvKey,recvSeq,mode,trapped⟩ := ch
  cases running
  have enough : ¬ data.length < 8 + 16 := by omega
  cases mode with
  | strict =>
    have number : readLe64 data = recvSeq := by simpa [admits] using admitted
    simp [swiftDecrypt,enough,number]
  | datagrams =>
    have number : ¬ readLe64 data < recvSeq := by simpa [admits] using admitted
    simp [swiftDecrypt,enough,number]

theorem swiftDecrypt_stopped {ch data} (running : ch.trapped = false)
    (stopped : ¬ Passes ch.mode ch.recvSeq data) : swiftDecrypt aead ch data = (ch,none) := by
  obtain ⟨recvKey,recvSeq,mode,trapped⟩ := ch
  cases running
  by_cases short : data.length < 8 + 16
  · simp [swiftDecrypt,short]
  · have refused : ¬ admits mode recvSeq (readLe64 data) = true := fun admitted => stopped ⟨by omega,admitted⟩
    cases mode with
    | strict =>
      have number : readLe64 data ≠ recvSeq := by simpa [admits] using refused
      simp [swiftDecrypt,short,number]
    | datagrams =>
      have number : readLe64 data < recvSeq := by simpa [admits] using refused
      simp [swiftDecrypt,short,number]

variable {recvSeq : UInt64}

theorem tsDecrypt_passes {ch data} (counter : ch.recvSeq = recvSeq.toNat) (passes : Passes ch.mode recvSeq data) :
    tsDecrypt aead ch data = ({ ch with recvSeq := (readLe64 data).toNat + 1 },opened aead ch.recvKey data) := by
  obtain ⟨recvKey,ownSeq,mode⟩ := ch
  cases counter
  obtain ⟨long,admitted⟩ := passes
  have enough : ¬ data.length < 8 := by omega
  cases mode with
  | strict =>
    have number : readLe64 data = recvSeq := by simpa [admits] using admitted
    simp [tsDecrypt,enough,number]
  | datagrams =>
    have number : ¬ (readLe64 data).toNat < recvSeq.toNat := by
      simpa [admits,UInt64.le_iff_toNat_le] using admitted
    simp [tsDecrypt,enough,number]

theorem tsDecrypt_stopped {ch data} (counter : ch.recvSeq = recvSeq.toNat)
    (stopped : ¬ Passes ch.mode recvSeq data) : tsDecrypt aead ch data = (ch,none) := by
  obtain ⟨recvKey,ownSeq,mode⟩ := ch
  cases counter
  by_cases short : data.length < 8
  · simp [tsDecrypt,short]
  · have refused : ¬ admits mode recvSeq (readLe64 data) = true := fun admitted => stopped ⟨by omega,admitted⟩
    cases mode with
    | strict =>
      have number : (readLe64 data).toNat ≠ recvSeq.toNat := by
        simpa [admits,UInt64.toNat_inj] using refused
      simp [tsDecrypt,short,number]
    | datagrams =>
      have number : (readLe64 data).toNat < recvSeq.toNat := by
        simpa [admits,UInt64.lt_iff_toNat_lt] using refused
      simp [tsDecrypt,short,number]

theorem tsDecrypt_past {ch data} (past : (readLe64 data).toNat < ch.recvSeq) :
    tsDecrypt aead ch data = (ch,none) := by
  obtain ⟨recvKey,recvSeq,mode⟩ := ch
  have apart : (readLe64 data).toNat ≠ recvSeq := ne_of_lt past
  cases mode with
  | strict => simp [tsDecrypt,apart]
  | datagrams => simp [tsDecrypt,show (readLe64 data).toNat < recvSeq from past]

end

structure Quartet where
  go : GoChannel
  c : Channel
  swift : SwiftChannel
  ts : TsChannel

def newQuartet (sendKey recvKey : Key) (mode : Mode) : Quartet :=
  ⟨newChannel sendKey recvKey mode,channelInit sendKey recvKey mode,⟨recvKey,0,mode,false⟩,⟨recvKey,0,mode⟩⟩

structure Verdicts where
  (go c swift ts : Option Bytes)
deriving DecidableEq

def Verdicts.Agree (v : Verdicts) : Prop := v.go = v.c ∧ v.swift = v.c ∧ v.ts = v.c

section
variable (aead : Aead)

def stepAll (r : Quartet) (data : Bytes) : Quartet × Verdicts :=
  (⟨(goDecrypt aead r.go data).1,(channelDecrypt aead r.c data data.length).1,
    (swiftDecrypt aead r.swift data).1,(tsDecrypt aead r.ts data).1⟩,
   ⟨(goDecrypt aead r.go data).2,(channelDecrypt aead r.c data data.length).2,
    (swiftDecrypt aead r.swift data).2,(tsDecrypt aead r.ts data).2⟩)

/-- A packet of the channel that is not the last number and whose plaintext has a length that an `int` holds. -/
def Ordinary (key : Key) (data : Bytes) : Prop :=
  readLe64 data ≠ maxWord ∧ ∃ p ∈ opened aead key data, p.length < 2 ^ 31

def PassesOrdinary (r : Quartet) (data : Bytes) : Prop :=
  Passes r.c.mode r.c.recvSeq data → Ordinary aead r.c.recvKey data

structure InStep (r : Quartet) : Prop where
  goKey : r.go.recvKey = r.c.recvKey
  goMode : r.go.mode = r.c.mode
  goSeq : r.go.recvSeq = r.c.recvSeq
  swiftKey : r.swift.recvKey = r.c.recvKey
  swiftMode : r.swift.mode = r.c.mode
  swiftSeq : r.swift.recvSeq = r.c.recvSeq
  running : r.swift.trapped = false
  tsKey : r.ts.recvKey = r.c.recvKey
  tsMode : r.ts.mode = r.c.mode
  tsSeq : r.ts.recvSeq = r.c.recvSeq.toNat

theorem newQuartet_inStep (sendKey recvKey : Key) (mode : Mode) : InStep (newQuartet sendKey recvKey mode) :=
  ⟨rfl,rfl,rfl,rfl,rfl,rfl,rfl,rfl,rfl,rfl⟩

section
variable {aead} {r : Quartet} {data : Bytes}

theorem channelDecrypt_unopened {ch} (fails : opened aead ch.recvKey data = none) :
    channelDecrypt aead ch data data.length = (ch,none) := by
  rcases channelDecrypt_cases aead ch data data.length with same | ⟨p,opens,-⟩
  · exact same
  · rw [fails] at opens; cases opens

theorem channelDecrypt_opened {ch p} (opens : opened aead ch.recvKey data = some p)
    (admitted : admits ch.mode ch.recvSeq (readLe64 data)) :
    channelDecrypt aead ch data data.length = ({ ch with recvSeq := readLe64 data + 1 },intReturn p) := by
  have long := length_of_opened aead opens
  have room : p.length ≤ data.length := by omega
  have took := channelDecrypt_packet aead admitted room
  rwa [← packet_of_opened aead opens] at took

theorem stepAll_stopped (sync : InStep r) (stopped : ¬ Passes r.c.mode r.c.recvSeq data) :
    stepAll aead r data = (r,⟨none,none,none,none⟩) := by
  have go : goDecrypt aead r.go data = (r.go,none) :=
    goDecrypt_stopped aead (by rw [sync.goMode,sync.goSeq]; exact stopped)
  have swift : swiftDecrypt aead r.swift data = (r.swift,none) :=
    swiftDecrypt_stopped aead sync.running (by rw [sync.swiftMode,sync.swiftSeq]; exact stopped)
  have ts : tsDecrypt aead r.ts data = (r.ts,none) :=
    tsDecrypt_stopped aead sync.tsSeq (by rw [sync.tsMode]; exact stopped)
  have c : channelDecrypt aead r.c data data.length = (r.c,none) := by
    rcases channelDecrypt_cases aead r.c data data.length with same | ⟨p,opens,admitted,-⟩
    · exact same
    · have long := length_of_opened aead opens
      exact absurd ⟨by omega,admitted⟩ stopped
  simp [stepAll,go,swift,ts,c]

theorem stepAll_ordinary (sync : InStep r) (passes : Passes r.c.mode r.c.recvSeq data)
    (ordinary : Ordinary aead r.c.recvKey data) : (stepAll aead r data).2.Agree ∧ InStep (stepAll aead r data).1 := by
  obtain ⟨notLast,p,opens,short⟩ := ordinary
  have opens : opened aead r.c.recvKey data = some p := opens
  have long := length_of_opened aead opens
  have next := toNat_succ notLast
  have go := goDecrypt_passes aead (show Passes r.go.mode r.go.recvSeq data by rwa [sync.goMode,sync.goSeq])
  have swift := swiftDecrypt_passes aead sync.running (by omega)
    (show admits r.swift.mode r.swift.recvSeq (readLe64 data) = true by
      rw [sync.swiftMode,sync.swiftSeq]; exact passes.2)
  have ts := tsDecrypt_passes aead sync.tsSeq (show Passes r.ts.mode r.c.recvSeq data by rwa [sync.tsMode])
  have c := channelDecrypt_opened opens passes.2
  rw [sync.goKey,opens] at go
  rw [sync.swiftKey,opens,swiftAdvance,if_neg notLast] at swift
  rw [sync.tsKey,opens] at ts
  rw [intReturn_of_lt short] at c
  refine ⟨?_,?_⟩
  · simp [stepAll,Verdicts.Agree,go,swift,ts,c]
  · simp only [stepAll,go,swift,ts,c]
    exact ⟨rfl,sync.goMode,rfl,sync.swiftKey,sync.swiftMode,rfl,sync.running,rfl,sync.tsMode,next.symm⟩

theorem stepAll_inStep (sync : InStep r) (kind : PassesOrdinary aead r data) :
    (stepAll aead r data).2.Agree ∧ InStep (stepAll aead r data).1 := by
  by_cases passes : Passes r.c.mode r.c.recvSeq data
  · exact stepAll_ordinary sync passes (kind passes)
  · rw [stepAll_stopped sync passes]
    exact ⟨⟨rfl,rfl,rfl⟩,sync⟩

theorem stepAll_key (r : Quartet) (data : Bytes) : (stepAll aead r data).1.c.recvKey = r.c.recvKey := by
  rcases channelDecrypt_cases aead r.c data data.length with same | ⟨p,-,-,-,took⟩
  · simp [stepAll,same]
  · simp [stepAll,took]

theorem ordinary_packet (key : Key) {seq} (notLast : seq ≠ maxWord) : Ordinary aead key (packet aead key seq []) := by
  refine ⟨by simpa using notLast,[],by simp,by simp⟩

section
variable (sync : InStep r) (passes : Passes r.c.mode r.c.recvSeq data)
include sync passes

theorem ordinary_of_agree {p} (opens : opened aead r.c.recvKey data = some p)
    (agree : (stepAll aead r data).2.Agree) : Ordinary aead r.c.recvKey data := by
  have long := length_of_opened aead opens
  have go := goDecrypt_passes aead (show Passes r.go.mode r.go.recvSeq data by rwa [sync.goMode,sync.goSeq])
  have c := channelDecrypt_opened opens passes.2
  have swift := swiftDecrypt_passes aead sync.running (by omega)
    (show admits r.swift.mode r.swift.recvSeq (readLe64 data) = true by
      rw [sync.swiftMode,sync.swiftSeq]; exact passes.2)
  obtain ⟨goC,swiftC,-⟩ := agree
  simp only [stepAll,go,sync.goKey,opens,c] at goC swiftC
  refine ⟨?_,p,opens,length_of_intReturn goC.symm⟩
  intro last
  rw [swift,swiftAdvance,if_pos last,← goC] at swiftC
  cases swiftC

theorem stepAll_unopened (opens : opened aead r.c.recvKey data = none) : (stepAll aead r data).1.c = r.c ∧
      (stepAll aead r data).1.go = { r.go with recvSeq := readLe64 data + 1 } ∧
      (stepAll aead r data).1.ts = { r.ts with recvSeq := (readLe64 data).toNat + 1 } := by
  have go := goDecrypt_passes aead (show Passes r.go.mode r.go.recvSeq data by rwa [sync.goMode,sync.goSeq])
  have ts := tsDecrypt_passes aead sync.tsSeq (show Passes r.ts.mode r.c.recvSeq data by rwa [sync.tsMode])
  simp [stepAll,go,ts,channelDecrypt_unopened opens]

theorem stepAll_not_ordinary (odd : ¬ Ordinary aead r.c.recvKey data) (agree : (stepAll aead r data).2.Agree) :
    ∃ y, Ordinary aead r.c.recvKey y ∧ ¬ (stepAll aead (stepAll aead r data).1 y).2.Agree := by
  cases opens : opened aead r.c.recvKey data with
  | some p => exact absurd (ordinary_of_agree sync passes opens agree) odd
  | none =>
    obtain ⟨cAfter,goAfter,tsAfter⟩ := stepAll_unopened sync passes opens
    by_cases last : r.c.recvSeq = maxWord
    · -- Go's counter has wrapped to zero, C's stands at the last number.
      have number : readLe64 data = maxWord := admits_max (by rw [← last]; exact passes.2)
      refine ⟨packet aead r.c.recvKey 0 [],ordinary_packet _ (by decide),?_⟩
      have goTakes : (goDecrypt aead (stepAll aead r data).1.go (packet aead r.c.recvKey 0 [])).2 = some [] := by
        rw [goAfter,number,← sync.goKey]
        exact goDecrypt_expected aead { r.go with recvSeq := maxWord + 1 }
      have cRefuses : channelDecrypt aead (stepAll aead r data).1.c (packet aead r.c.recvKey 0 [])
          (packet aead r.c.recvKey 0 []).length = (r.c,none) := by
        rw [cAfter]
        exact channelDecrypt_not_admitted aead _ (by rw [readLe64_packet,last]; cases r.c.mode <;> decide)
      rintro ⟨goC,-⟩
      cases goTakes.symm.trans (goC.trans (congrArg Prod.snd cRefuses))
    · -- The TypeScript counter is past the number that C still expects.
      refine ⟨packet aead r.c.recvKey r.c.recvSeq [],ordinary_packet _ last,?_⟩
      have cTakes : channelDecrypt aead (stepAll aead r data).1.c (packet aead r.c.recvKey r.c.recvSeq [])
          (packet aead r.c.recvKey r.c.recvSeq []).length = ({ r.c with recvSeq := r.c.recvSeq + 1 },some []) := by
        rw [cAfter,channelDecrypt_packet aead (admits_self _ _) (by simp)]
        rfl
      have tsRefuses : tsDecrypt aead (stepAll aead r data).1.ts (packet aead r.c.recvKey r.c.recvSeq []) =
          ((stepAll aead r data).1.ts,none) := by
        refine tsDecrypt_past aead ?_
        have low := UInt64.le_iff_toNat_le.mp (admits_le passes.2)
        rw [tsAfter,readLe64_packet]
        exact Nat.lt_succ_of_le low
      rintro ⟨-,-,tsC⟩
      cases (congrArg Prod.snd tsRefuses).symm.trans (tsC.trans (congrArg Prod.snd cTakes))

end

end

theorem quartet_agrees_iff {r} (sync : InStep r) (inputs : List Bytes) :
    (∀ before after, inputs = before ++ after → ∀ y, Ordinary aead r.c.recvKey y →
      ∀ v ∈ answers (stepAll aead) r (before ++ [y]), v.Agree) ↔
    Along (stepAll aead) (PassesOrdinary aead) r inputs := by
  have settled : ∀ {s : Quartet}, InStep s → ∀ y, Ordinary aead s.c.recvKey y →
      ∀ v ∈ answers (stepAll aead) s [y], v.Agree := by
    intro s inStep y ordinary v mem
    rw [answers_cons,answers_nil,mem_singleton] at mem
    rw [mem]
    exact (stepAll_inStep inStep (fun _ => ordinary)).1
  induction inputs generalizing r with
  | nil =>
    refine ⟨fun _ => trivial,?_⟩
    rintro - before after split y ordinary
    obtain ⟨rfl,rfl⟩ := append_eq_nil_iff.mp split.symm
    exact settled sync y ordinary
  | cons x rest ih =>
    constructor
    · intro agrees
      have here : PassesOrdinary aead r x := by
        intro passes
        by_contra odd
        have alike := agrees [x] rest rfl _ (ordinary_packet r.c.recvKey (show (0 : UInt64) ≠ maxWord by decide))
        have agreesHere : (stepAll aead r x).2.Agree := alike _ mem_cons_self
        obtain ⟨y,ordinary,apart⟩ := stepAll_not_ordinary sync passes odd agreesHere
        exact apart (agrees [x] rest rfl y ordinary _ (mem_cons_of_mem _ mem_cons_self))
      refine ⟨here,(ih (stepAll_inStep sync here).2).mp ?_⟩
      rintro before after rfl y ordinary v mem
      rw [stepAll_key] at ordinary
      exact agrees (x :: before) after rfl y ordinary v (mem_cons_of_mem _ mem)
    · rintro ⟨here,later⟩ before after split y ordinary
      obtain ⟨agreesHere,inStep⟩ := stepAll_inStep sync here
      cases before with
      | nil => exact settled sync y ordinary
      | cons x' before =>
        cases split
        intro v mem
        rcases mem_cons.mp mem with first | next
        · rw [first]; exact agreesHere
        · exact (ih inStep).mpr later before after rfl y (by rwa [stepAll_key]) v next

/-- Four new receivers for the same keys agree at every step, and would on any ordinary packet, if and only if every
    input that passes the first checks is one. -/
theorem receivers_agree_iff (sendKey recvKey : Key) (mode : Mode) (inputs : List Bytes) :
    (∀ before after, inputs = before ++ after → ∀ y, Ordinary aead recvKey y →
      ∀ v ∈ answers (stepAll aead) (newQuartet sendKey recvKey mode) (before ++ [y]), v.Agree) ↔
    Along (stepAll aead) (PassesOrdinary aead) (newQuartet sendKey recvKey mode) inputs :=
  quartet_agrees_iff aead (newQuartet_inStep sendKey recvKey mode) inputs

end

/-- After a forgery only C accepts the genuine packet; at the last number Swift traps. -/
theorem receivers_disagree :
    (answers (stepAll checked) (newQuartet keyA keyB .strict) [forged 0,packet checked keyB 0 [7]] =
      [⟨none,none,none,none⟩,⟨none,some [7],none,none⟩]) ∧
    (answers (stepAll checked) (newQuartet keyA keyB .datagrams) [packet checked keyB maxWord [7]] =
      [⟨some [7],some [7],none,some [7]⟩]) := by
  decide +kernel

end Pigeon.Receivers
