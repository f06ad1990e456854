import Pigeon.Chunks
import Pigeon.Transports

/-!
Messages on a stream as the three libraries write them (`webtransport.go`, `relay.ts`,
`ngtcp2_transport.c`) and as Go and TypeScript read them from chunks (`goReader`, `tsReader`). A
stream cut anywhere gives the messages that are complete in it, in order, and then errors
(`messages_received`).
-/
namespace Pigeon.FramedReaders
open Octets Framing Chunks Runs List
open Transports (rawSendOnStream)

inductive Writer
  | go
  | typescript
  | c

def writeFrame (data : Bytes) : Option Bytes :=
  if maxMessageSize < data.length then none else some (be 4 data.length ++ data)

def write (stream : Bytes) (send : Writer × Bytes) : Bytes :=
  match send.1 with
  | .go => stream ++ (writeMessage send.2).getD []
  | .typescript => stream ++ (writeFrame send.2).getD []
  | .c => (rawSendOnStream stream send.2).1

def written (sends : List (Writer × Bytes)) : Bytes := sends.foldl write []

inductive GoReadError
  | eof
  | unexpectedEOF
  | text (message : String)

/-- `io.ReadFull` of `n` octets after `got`: each `Read` gives what is left of a chunk. -/
def readFull : List Bytes → Nat → Bool → List Bytes × Except GoReadError Bytes
  | [], n, got => ([],if n = 0 then .ok [] else .error (if got then .unexpectedEOF else .eof))
  | chunk :: chunks, n, got =>
    if n = 0 then (chunk :: chunks,.ok [])
    else if chunk.length ≤ n then
      let later := readFull chunks (n - chunk.length) (got || decide (0 < chunk.length))
      (later.1,later.2.map (chunk ++ ·))
    else (chunk.drop n :: chunks,.ok (chunk.take n))

theorem readFull_exact (chunks : List Bytes) (n : Nat) (got : Bool) :
    (readFull chunks n got).1.flatten = (takeExact n chunks.flatten).1 ∧
      (readFull chunks n got).2.toOption = (takeExact n chunks.flatten).2 := by
  induction chunks generalizing n got with
  | nil =>
    by_cases zero : n = 0
    · subst zero
      exact ⟨rfl,rfl⟩
    · simp [readFull,takeExact,zero,Nat.pos_of_ne_zero zero,Except.toOption]
  | cons chunk chunks ih =>
    rw [readFull,flatten_cons]
    by_cases zero : n = 0
    · subst zero
      simp [takeExact,Except.toOption]
    · rw [if_neg zero]
      by_cases short : chunk.length ≤ n
      · obtain ⟨left,result⟩ := ih (n - chunk.length) (got || decide (0 < chunk.length))
        rw [if_pos short,takeExact_append short]
        exact ⟨left,(toOption_map _ _).trans (congrArg _ result)⟩
      · rw [if_neg short,takeExact_within (Nat.le_of_not_le short)]
        exact ⟨rfl,rfl⟩

def goReader : Reader (List Bytes) UInt8 GoReadError where
  unread := flatten
  read n chunks := readFull chunks n false
  unread_read n chunks := (readFull_exact chunks n false).1
  result_read n chunks := (readFull_exact chunks n false).2

structure FramedReader where
  remainder : Option Bytes
  chunks : List Bytes

def readLoop : List Bytes → Option Bytes → Nat → FramedReader × Except String Bytes
  | chunks, remainder, 0 => (⟨remainder,chunks⟩,.ok [])
  | [], remainder, _ + 1 => (⟨remainder,[]⟩,.error "stream ended before expected bytes were read")
  | value :: chunks, remainder, needed + 1 =>
    let take := min value.length (needed + 1)
    let later := readLoop chunks (if take < value.length then some (value.drop take) else remainder) (needed + 1 - take)
    (later.1,later.2.map (value.take take ++ ·))

/-- `FramedReader.readExact`. -/
def readExact (n : Nat) (s : FramedReader) : FramedReader × Except String Bytes :=
  match s.remainder with
  | none => readLoop s.chunks none n
  | some rem =>
    let take := min rem.length n
    let later := readLoop s.chunks (if take < rem.length then some (rem.drop take) else none) (n - take)
    (later.1,later.2.map (rem.take take ++ ·))

def unread (s : FramedReader) : Bytes := s.remainder.getD [] ++ s.chunks.flatten

theorem readLoop_zero (chunks : List Bytes) (remainder : Option Bytes) :
    readLoop chunks remainder 0 = (⟨remainder,chunks⟩,.ok []) := by
  cases chunks <;> rfl

theorem exact_of_loop {front chunks n}
    (loop : ∀ needed, unread (readLoop chunks none needed).1 = (takeExact needed chunks.flatten).1 ∧
      (readLoop chunks none needed).2.toOption = (takeExact needed chunks.flatten).2) :
    let take := min front.length n
    let later := readLoop chunks (if take < front.length then some (front.drop take) else none) (n - take)
    unread later.1 = (takeExact n (front ++ chunks.flatten)).1 ∧
      (later.2.map (front.take take ++ ·)).toOption = (takeExact n (front ++ chunks.flatten)).2 := by
  by_cases short : front.length ≤ n
  · obtain ⟨left,result⟩ := loop (n - front.length)
    have all : min front.length n = front.length := Nat.min_eq_left short
    simp only [all,Nat.lt_irrefl,if_false,take_length,takeExact_append short]
    exact ⟨left,(toOption_map _ _).trans (congrArg _ result)⟩
  · have part : min front.length n = n := Nat.min_eq_right (Nat.le_of_not_le short)
    have fewer : n < front.length := Nat.lt_of_not_le short
    simp only [part,fewer,if_true,Nat.sub_self,readLoop_zero,takeExact_within (Nat.le_of_not_le short)]
    exact ⟨rfl,by simp [Except.map,Except.toOption]⟩

theorem readLoop_exact (chunks : List Bytes) (needed : Nat) :
    unread (readLoop chunks none needed).1 = (takeExact needed chunks.flatten).1 ∧
      (readLoop chunks none needed).2.toOption = (takeExact needed chunks.flatten).2 := by
  induction chunks generalizing needed with
  | nil => cases needed <;> simp [readLoop,unread,takeExact,Except.toOption]
  | cons value chunks ih =>
    cases needed with
    | zero => simp [readLoop,unread,takeExact,Except.toOption]
    | succ needed =>
      rw [readLoop,flatten_cons]
      exact exact_of_loop ih

theorem readExact_exact (n : Nat) (s : FramedReader) : unread (readExact n s).1 = (takeExact n (unread s)).1 ∧
      (readExact n s).2.toOption = (takeExact n (unread s)).2 := by
  obtain ⟨remainder,chunks⟩ := s
  cases remainder with
  | none => exact readLoop_exact chunks n
  | some rem => exact exact_of_loop (readLoop_exact chunks)

def tsReader : Reader FramedReader UInt8 String where
  unread := unread
  read := readExact
  unread_read n s := (readExact_exact n s).1
  result_read n s := (readExact_exact n s).2

def checkLength {ε : Type} (tooLarge : String → ε) (header : Bytes) : Except ε Nat :=
  if maxMessageSize < ofBe header then
    .error (tooLarge ("message too large: " ++ toString (ofBe header) ++ " > " ++ toString maxMessageSize))
  else .ok (ofBe header)

/-- `readMessage`. -/
def goReadMessage (chunks : List Bytes) : List Bytes × Except GoReadError Bytes :=
  goReader.framed 4 (checkLength .text) chunks

/-- `FramedReader.readMessage`. -/
def tsReadMessage (s : FramedReader) : FramedReader × Except String Bytes := tsReader.framed 4 (checkLength id) s

theorem takeFramed_eq {ε : Type} (tooLarge : String → ε) (stream : Bytes) :
    takeFramed 4 (fun header => (checkLength tooLarge header).toOption) stream = readMessage stream := by
  by_cases short : stream.length < 4
  · simp [takeFramed,takeExact,readMessage,short]
  · by_cases large : maxMessageSize < ofBe (stream.take 4)
    · simp [takeFramed,takeExact,readMessage,short,checkLength,large,Except.toOption]
    · simp [takeFramed,takeExact,readMessage,short,checkLength,large,Except.toOption]

theorem readMessage_whole {S ε : Type} (r : Reader S UInt8 ε) (tooLarge : String → ε) (s : S) :
    r.unread (r.framed 4 (checkLength tooLarge) s).1 = (readMessage (r.unread s)).1 ∧
      (r.framed 4 (checkLength tooLarge) s).2.toOption = (readMessage (r.unread s)).2 := by
  have whole := framed_exact r 4 (checkLength tooLarge) s
  rwa [takeFramed_eq] at whole

/-- The messages that are complete in the first `cut` octets of a stream. -/
def complete : Nat → List Bytes → List Bytes
  | _, [] => []
  | cut, m :: ms => if 4 + m.length ≤ cut then m :: complete (cut - (4 + m.length)) ms else []

theorem length_frame (data : Bytes) : (frame data).length = 4 + data.length := by simp [frame]

theorem complete_all {cut ms} (long : (ms.flatMap frame).length ≤ cut) : complete cut ms = ms := by
  induction ms generalizing cut with
  | nil => rfl
  | cons m ms ih =>
    rw [flatMap_cons,length_append,length_frame] at long
    rw [complete,if_pos (by omega),ih (by omega)]

def results {S ε : Type} (read : S → S × Except ε Bytes) (s : S) (n : Nat) : List (Option Bytes) :=
  (answers (fun s (_ : Unit) => read s) s (replicate n ())).map Except.toOption

theorem readMessage_cut {m} (small : m.length ≤ maxMessageSize) {cut} (short : cut < 4 + m.length)
    (rest : Bytes) : readMessage ((frame m ++ rest).take cut) = ([],none) := by
  have length : ((frame m ++ rest).take cut).length = cut := by
    rw [length_take,length_append,length_frame]
    omega
  rw [readMessage,length]
  by_cases header : cut < 4
  · rw [if_pos header]
  · have front : ofBe (((frame m ++ rest).take cut).take 4) = m.length := by
      rw [take_take,Nat.min_eq_left (Nat.not_lt.mp header),ofBe_frame small]
    have body : (((frame m ++ rest).take cut).drop 4).length < m.length := by
      rw [length_drop,length]
      omega
    rw [if_neg header,front,if_neg (Nat.not_lt.mpr small),if_pos body]

section
variable {S ε : Type} (r : Reader S UInt8 ε) (tooLarge : String → ε)
include r tooLarge

theorem results_succ (s : S) (n : Nat) : results (r.framed 4 (checkLength tooLarge)) s (n + 1) =
      (readMessage (r.unread s)).2 ::
        results (r.framed 4 (checkLength tooLarge)) (r.framed 4 (checkLength tooLarge) s).1 n := by
  rw [← (readMessage_whole r tooLarge s).2]
  rfl

theorem results_over {s} (ended : r.unread s = []) (n : Nat) :
    results (r.framed 4 (checkLength tooLarge)) s n = replicate n none := by
  induction n generalizing s with
  | zero => rfl
  | succ n ih =>
    have left := (readMessage_whole r tooLarge s).1
    rw [ended] at left
    rw [results_succ,ended,ih left]
    rfl

theorem results_cut {ms} (small : ∀ m ∈ ms, m.length ≤ maxMessageSize) {cut s}
    (arrived : r.unread s = (ms.flatMap frame).take cut) (n : Nat) :
    results (r.framed 4 (checkLength tooLarge)) s n = (range n).map (fun i => (complete cut ms)[i]?) := by
  induction n generalizing ms cut s with
  | zero => rfl
  | succ n ih =>
    have left := (readMessage_whole r tooLarge s).1
    rw [results_succ,range_succ_eq_map,map_cons,map_map]
    cases ms with
    | nil =>
      have nothing : r.unread s = [] := by simpa using arrived
      rw [nothing] at left ⊢
      rw [results_over r tooLarge left]
      simp [readMessage,complete,Function.comp_def]
    | cons m ms =>
      have within := small m mem_cons_self
      rw [flatMap_cons] at arrived
      by_cases whole : 4 + m.length ≤ cut
      · rw [take_append,take_of_length_le (by rw [length_frame]; exact whole),length_frame] at arrived
        rw [arrived,readMessage_frame within] at left ⊢
        rw [ih (fun other mem => small other (mem_cons_of_mem _ mem)) left,complete,if_pos whole]
        rfl
      · rw [arrived,readMessage_cut within (Nat.not_le.mp whole)] at left ⊢
        rw [results_over r tooLarge left]
        simp [complete,whole,Function.comp_def]

end

theorem write_eq {send} (small : send.2.length ≤ maxMessageSize) (stream : Bytes) :
    write stream send = stream ++ frame send.2 := by
  have fits : ¬ maxMessageSize < send.2.length := Nat.not_lt.mpr small
  have room : ¬ Pigeon.CSession.pigeonMaxMsg < send.2.length := fits
  unfold write
  split
  · simp [writeMessage,fits]
  · simp [writeFrame,fits,frame]
  · rw [rawSendOnStream,if_neg room]

theorem written_eq {sends} (small : ∀ send ∈ sends, send.2.length ≤ maxMessageSize) :
    written sends = (sends.map Prod.snd).flatMap frame := by
  have each : ∀ stream, sends.foldl write stream = stream ++ (sends.map Prod.snd).flatMap frame := by
    induction sends with
    | nil => simp
    | cons send sends ih =>
      intro stream
      rw [foldl_cons,write_eq (small send mem_cons_self),ih (fun other mem => small other (mem_cons_of_mem _ mem))]
      simp
  exact each []

/-- Messages of any of the libraries, of which `cut` octets arrive in any chunks, are read by Go and TypeScript as far
    as they are complete, in order, and then there are errors. -/
theorem messages_received (sends : List (Writer × Bytes)) (small : ∀ send ∈ sends, send.2.length ≤ maxMessageSize)
    (cut : Nat) (chunks : List Bytes) (arrived : chunks.flatten = (written sends).take cut) (n : Nat) :
    results goReadMessage chunks n = (range n).map (fun i => (complete cut (sends.map Prod.snd))[i]?) ∧
      results tsReadMessage ⟨none,chunks⟩ n = (range n).map (fun i => (complete cut (sends.map Prod.snd))[i]?) ∧
      ((written sends).length ≤ cut → complete cut (sends.map Prod.snd) = sends.map Prod.snd) := by
  have each : ∀ m ∈ sends.map Prod.snd, m.length ≤ maxMessageSize := by
    intro m mem
    obtain ⟨send,sent,rfl⟩ := mem_map.mp mem
    exact small send sent
  rw [written_eq small] at arrived ⊢
  exact ⟨results_cut goReader .text each arrived n,
    results_cut tsReader id (s := ⟨none,chunks⟩) each (by simpa [tsReader,unread] using arrived) n,complete_all⟩

/-- Three messages of three libraries in fifteen octets, of which thirteen arrive. -/
theorem cut_messages_received :
    results goReadMessage [[0,0],[],[0,2,1],[2,0,0,0,0,0],[0,0]] 4 = [some [1,2],some [],none,none] ∧
      results tsReadMessage ⟨none,[[0,0],[],[0,2,1],[2,0,0,0,0,0],[0,0]]⟩ 4 = [some [1,2],some [],none,none] := by
  have received := messages_received [(.go,[1,2]),(.typescript,[]),(.c,[3])] (by decide) 13
    [[0,0],[],[0,2,1],[2,0,0,0,0,0],[0,0]] (by decide +kernel) 4
  exact ⟨received.1,received.2.1⟩

end Pigeon.FramedReaders
