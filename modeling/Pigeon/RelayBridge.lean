import Pigeon.Octets
import Pigeon.Runs

/-!
The bridge of the relay (`session.go`): loops that forward messages, datagrams and streams of
a client and a backend. An event is one round of a loop or of a copying goroutine, or the end
of a session. A loop returns at its first failure and the bridge runs on, so everything is
forwarded just when nothing comes after one (`forwarded_iff`).
-/
namespace Pigeon.RelayBridge
open Octets Runs List

inductive Side
  | client
  | backend
deriving DecidableEq

inductive Kind
  | datagrams
  | streams
deriving DecidableEq

/-- One direction of a bridged stream: a goroutine in `bridgeStream`, what it has written, and how it left the other
    end. -/
structure Copying where
  runs : Bool
  written : List Bytes
  (closed reset : Bool)

def Copying.fresh : Copying := ⟨true,[],false,false⟩

structure Pair where
  opener : Side
  (forth back : Copying)

/-- `bridge` with its `streamTracker`. -/
structure Bridge where
  /-- The `select` of `bridge` has not been left. -/
  runs : Bool
  /-- The loops that have returned by themselves. -/
  returned : List (Kind × Side)
  /-- What was read on the primary stream and as datagrams of a side, and written to the other. -/
  (primary datagrams : List (Side × Bytes))
  pairs : List Pair

def start : Bridge := ⟨true,[],[],[],[]⟩

inductive Event
  | primary (src : Side) (msg : Bytes) (written : Bool)
  | datagram (src : Side) (data : Bytes) (sent : Bool)
  | stream (src : Side) (opened : Bool)
  | message (pair : Nat) (back : Bool) (msg : Bytes) (written : Bool)
  | streamEnds (pair : Nat) (back reset : Bool)
  /-- A session ends: a context is done or a primary stream cannot be read. -/
  | disconnects (side : Side)

inductive Outcome
  | forwarded
  | dropped
  | closed
  /-- No loop takes it. -/
  | unserved
  | torn
deriving DecidableEq

/-- After the `select`: all loops end, `tracker.closeAll` and both sessions are closed. -/
def Bridge.tearDown (b : Bridge) : Bridge :=
  { b with
    runs := false
    pairs := b.pairs.map (fun p => ⟨p.opener,{ p.forth with runs := false },{ p.back with runs := false }⟩) }

/-- A round of `bridgeStream`. -/
def Copying.round (c : Copying) (msg : Bytes) (written : Bool) : Copying × Outcome :=
  if c.runs then
    if written then ({ c with written := c.written ++ [msg] },.forwarded) else ({ c with runs := false },.dropped)
  else (c,.unserved)

def Copying.ends (c : Copying) (reset : Bool) : Copying × Outcome :=
  if c.runs then ({ c with runs := false, closed := !reset, reset },.closed) else (c,.unserved)

def Bridge.copy (b : Bridge) (pair : Nat) (back : Bool) (f : Copying → Copying × Outcome) : Bridge × Outcome :=
  match b.pairs[pair]? with
  | none => (b,.unserved)
  | some p =>
    if back then ({ b with pairs := b.pairs.set pair { p with back := (f p.back).1 } },(f p.back).2)
    else ({ b with pairs := b.pairs.set pair { p with forth := (f p.forth).1 } },(f p.forth).2)

def Bridge.serves (b : Bridge) (loop : Kind × Side) : Bool := b.runs && !b.returned.contains loop

def step (b : Bridge) : Event → Bridge × Outcome
  | .primary src msg written =>
    if b.runs then
      if written then ({ b with primary := b.primary ++ [(src,msg)] },.forwarded) else (b.tearDown,.torn)
    else (b,.unserved)
  | .datagram src data sent =>
    if b.serves (.datagrams,src) then
      if sent then ({ b with datagrams := b.datagrams ++ [(src,data)] },.forwarded)
      else ({ b with returned := (.datagrams,src) :: b.returned },.dropped)
    else (b,.unserved)
  | .stream src opened =>
    if b.serves (.streams,src) then
      if opened then ({ b with pairs := b.pairs ++ [⟨src,.fresh,.fresh⟩] },.forwarded)
      else ({ b with returned := (.streams,src) :: b.returned },.closed)
    else (b,.unserved)
  | .message pair back msg written => b.copy pair back (·.round msg written)
  | .streamEnds pair back reset => b.copy pair back (·.ends reset)
  | .disconnects _ => if b.runs then (b.tearDown,.torn) else (b,.unserved)

def Event.loop : Event → Option (Kind × Side)
  | .datagram src _ _ => some (.datagrams,src)
  | .stream src _ => some (.streams,src)
  | _ => none

def Event.works : Event → Bool
  | .datagram _ _ sent => sent
  | .stream _ opened => opened
  | _ => true

def Event.connected : Event → Bool
  | .primary _ _ written => written
  | .disconnects _ => false
  | _ => true

def Event.expected : Event → Outcome
  | .datagram _ _ sent => if sent then .forwarded else .dropped
  | .stream _ opened => if opened then .forwarded else .closed
  | _ => .forwarded

theorem copy_frame (b : Bridge) (pair : Nat) (back : Bool) (f : Copying → Copying × Outcome) :
    (b.copy pair back f).1.runs = b.runs ∧ (b.copy pair back f).1.returned = b.returned ∧
      (b.copy pair back f).1.datagrams = b.datagrams := by
  rw [Bridge.copy]
  split
  · exact ⟨rfl,rfl,rfl⟩
  · split
    · exact ⟨rfl,rfl,rfl⟩
    · exact ⟨rfl,rfl,rfl⟩

variable {b : Bridge} {e : Event} {events : List Event}

theorem serves_iff (runs : b.runs) (l : Kind × Side) : b.serves l ↔ l ∉ b.returned := by
  simp [Bridge.serves,runs]

theorem step_of_returned {l} (own : e.loop = some l) (gone : l ∈ b.returned) : step b e = (b,.unserved) := by
  have notServed : b.serves l = false := by simp [Bridge.serves,gone]
  cases e with
  | datagram | stream =>
    cases own
    simp [step,notServed]
  | primary | message | streamEnds | disconnects => cases own

theorem step_of_serving (runs : b.runs) {l} (own : e.loop = some l) (there : l ∉ b.returned) :
    (step b e).2 = e.expected ∧ (step b e).1.runs ∧
      (step b e).1.returned = if e.works then b.returned else l :: b.returned := by
  have served := (serves_iff runs l).mpr there
  cases e with
  | datagram _ _ worked | stream _ worked =>
    cases own
    cases worked with
    | true | false => simp [step,served,runs,Event.expected,Event.works]
  | primary | message | streamEnds | disconnects => cases own

theorem step_of_other (runs : b.runs) (connected : e.connected) (other : e.loop = none) :
    (step b e).1.runs ∧ (step b e).1.returned = b.returned := by
  cases e with
  | primary src msg written =>
    cases (connected : written = true)
    simp [step,runs]
  | message pair back msg written =>
    obtain ⟨sameRuns,sameReturned,-⟩ := copy_frame b pair back (·.round msg written)
    exact ⟨sameRuns.trans runs,sameReturned⟩
  | streamEnds pair back reset =>
    obtain ⟨sameRuns,sameReturned,-⟩ := copy_frame b pair back (·.ends reset)
    exact ⟨sameRuns.trans runs,sameReturned⟩
  | disconnects side => cases connected
  | datagram | stream => cases other

theorem step_returned (runs : b.runs) (connected : e.connected) : (step b e).1.runs ∧
      ∀ l, l ∈ (step b e).1.returned ↔ l ∈ b.returned ∨ (e.loop = some l ∧ e.works = false) := by
  cases own : e.loop with
  | none =>
    obtain ⟨stillRuns,same⟩ := step_of_other runs connected own
    refine ⟨stillRuns,?_⟩
    intro l
    rw [same]
    simp
  | some k =>
    by_cases gone : k ∈ b.returned
    · rw [step_of_returned own gone]
      refine ⟨runs,?_⟩
      intro l
      constructor
      · exact Or.inl
      · rintro (before | ⟨same,-⟩)
        · exact before
        · cases same
          exact gone
    · obtain ⟨-,stillRuns,returned⟩ := step_of_serving runs own gone
      refine ⟨stillRuns,?_⟩
      intro l
      rw [returned]
      cases e.works with
      | true => simp
      | false =>
        simp only [Bool.false_eq_true,if_false,mem_cons,Option.some.injEq,and_true]
        rw [or_comm]
        exact or_congr_right eq_comm

theorem final_returned (runs : b.runs) (connected : ∀ e ∈ events, e.connected) : (final step b events).runs ∧
      ∀ l, l ∈ (final step b events).returned ↔ l ∈ b.returned ∨ ∃ e ∈ events, e.loop = some l ∧ e.works = false := by
  induction events generalizing b with
  | nil => simp [runs]
  | cons e rest ih =>
    obtain ⟨stillRuns,returned⟩ := step_returned runs (connected e mem_cons_self)
    obtain ⟨atEnd,later⟩ := ih stillRuns (fun f mem => connected f (mem_cons_of_mem _ mem))
    refine ⟨atEnd,?_⟩
    intro l
    rw [final_cons,later,returned,or_assoc]
    simp

theorem outcome_iff (connected : ∀ e ∈ events, e.connected) {l} (own : e.loop = some l) :
    (step (final step start events) e).2 = e.expected ↔ ∀ f ∈ events, f.loop = some l → f.works := by
  obtain ⟨runs,returned⟩ := final_returned (b := start) rfl connected
  by_cases gone : l ∈ (final step start events).returned
  · obtain impossible | ⟨f,mem,same,fails⟩ := (returned l).mp gone
    · cases impossible
    rw [step_of_returned own gone]
    constructor
    · intro unserved
      cases e with
      | datagram src data sent => cases sent <;> cases unserved
      | stream src opened => cases opened <;> cases unserved
      | primary | message | streamEnds | disconnects => cases own
    · intro all
      rw [all f mem same] at fails
      cases fails
  · constructor
    · intro _ f mem same
      cases works : f.works with
      | true => rfl
      | false => exact absurd ((returned l).mpr (Or.inr ⟨f,mem,same,works⟩)) gone
    · intro _
      exact (step_of_serving runs own gone).1

/-- While both sides stay connected, everything is forwarded, or dropped by itself, just when nothing comes after one
    of its kind and direction that failed. -/
theorem forwarded_iff (events : List Event) (connected : ∀ e ∈ events, e.connected = true) :
    (∀ (n : Nat) e, events[n]? = some e → e.loop.isSome = true → (answers step start events)[n]? = some e.expected) ↔
    events.Pairwise (fun e f => e.loop.isSome = true → e.loop = f.loop → e.works = true) := by
  have outcome : ∀ (n : Nat) e l, events[n]? = some e → e.loop = some l →
      ((answers step start events)[n]? = some e.expected ↔
        ∀ f ∈ events.take n, f.loop = some l → f.works = true) := by
    intro n e l found own
    rw [getElem?_answers,found,Option.map_some,Option.some.injEq]
    exact outcome_iff (fun f mem => connected f (mem_of_mem_take mem)) own
  rw [pairwise_iff_getElem]
  constructor
  · intro all m n insideM insideN before item same
    obtain ⟨l,own⟩ := Option.isSome_iff_exists.mp item
    have found := getElem?_eq_getElem insideN
    have served := all n events[n] found (same ▸ item)
    refine (outcome n events[n] l found (same ▸ own)).mp served events[m] ?_ own
    exact mem_take_iff_getElem.mpr ⟨m,Nat.lt_min.mpr ⟨before,insideM⟩,rfl⟩
  · intro apart n e found item
    obtain ⟨l,own⟩ := Option.isSome_iff_exists.mp item
    refine (outcome n e l found own).mpr ?_
    intro f mem same
    obtain ⟨m,small,rfl⟩ := mem_take_iff_getElem.mp mem
    obtain ⟨before,insideM⟩ := Nat.lt_min.mp small
    obtain ⟨insideN,rfl⟩ := List.getElem?_eq_some_iff.mp found
    exact apart m n insideM insideN before (by rw [same]; rfl) (same.trans own.symm)

def failuresLast : List Event :=
  [.datagram .client [1] true,.stream .client true,.datagram .client [2] false,.stream .client true,
    .datagram .backend [3] true]

theorem failures_last_forwarded :
    failuresLast.Pairwise (fun e f => e.loop.isSome = true → e.loop = f.loop → e.works = true) ∧
      ∀ (n : Nat) e, failuresLast[n]? = some e → e.loop.isSome = true →
        (answers step start failuresLast)[n]? = some e.expected :=
  ⟨by decide,(forwarded_iff failuresLast (by decide)).mpr (by decide)⟩

def threeDatagrams : List Event :=
  [.datagram .client [1] true,.datagram .client [2] false,.datagram .client [3] true]

/-- After one failure the bridge runs on and takes no more of the kind from that side. -/
theorem failure_stops_direction : answers step start threeDatagrams = [.forwarded,.dropped,.unserved] ∧
      answers step start [.stream .backend false,.stream .backend true] = [.closed,.unserved] ∧
      (final step start threeDatagrams).runs = true := by
  decide

def sentFrom (b : Bridge) (src : Side) : List Bytes := (b.datagrams.filter (·.1 = src)).map Prod.snd

def Event.offers (src : Side) : Event → Option (Bytes × Bool)
  | .datagram src' data sent => if src' = src then some (data,sent) else none
  | _ => none

theorem sentFrom_step (runs : b.runs) (connected : e.connected) (src : Side) :
    sentFrom (step b e).1 src = sentFrom b src ++ if (.datagrams,src) ∈ b.returned then [] else
      ((e.offers src).toList.takeWhile Prod.snd).map Prod.fst := by
  cases e with
  | datagram src' data sent =>
    by_cases gone : (Kind.datagrams,src') ∈ b.returned
    · rw [step_of_returned rfl gone]
      by_cases same : src' = src
      · subst same
        rw [if_pos gone,append_nil]
      · simp [Event.offers,same]
    · have served := (serves_iff runs _).mpr gone
      by_cases same : src' = src
      · subst same
        cases sent <;> simp [step,served,sentFrom,Event.offers,gone]
      · cases sent <;> simp [step,served,sentFrom,Event.offers,same]
  | primary src' msg written =>
    cases (connected : written = true)
    simp [step,runs,sentFrom,Event.offers]
  | stream src' opened =>
    cases opened <;> simp only [step] <;> split <;> simp [sentFrom,Event.offers]
  | message pair back msg written =>
    obtain ⟨-,-,same⟩ := copy_frame b pair back (·.round msg written)
    simp [step,sentFrom,same,Event.offers]
  | streamEnds pair back reset =>
    obtain ⟨-,-,same⟩ := copy_frame b pair back (·.ends reset)
    simp [step,sentFrom,same,Event.offers]
  | disconnects side => cases connected

theorem loop_of_offers {src data sent} (offers : e.offers src = some (data,sent)) :
    e.loop = some (.datagrams,src) ∧ e.works = sent := by
  cases e with
  | datagram src' data' sent' =>
    obtain ⟨rfl,same⟩ := Option.ite_none_right_eq_some.mp offers
    cases same
    exact ⟨rfl,rfl⟩
  | primary | stream | message | streamEnds | disconnects => cases offers

theorem loop_of_not_offers {src} (offers : e.offers src = none) : e.loop ≠ some (.datagrams,src) := by
  cases e with
  | datagram src' data sent =>
    intro same
    cases same
    simp [Event.offers] at offers
  | primary | stream | message | streamEnds | disconnects => simp [Event.loop]

theorem sentFrom_final (runs : b.runs) (connected : ∀ e ∈ events, e.connected) (src : Side) :
    sentFrom (final step b events) src = sentFrom b src ++ if (.datagrams,src) ∈ b.returned then [] else
      ((events.filterMap (Event.offers src)).takeWhile Prod.snd).map Prod.fst := by
  induction events generalizing b with
  | nil => simp
  | cons e rest ih =>
    have now := connected e mem_cons_self
    obtain ⟨stillRuns,returned⟩ := step_returned runs now
    rw [final_cons,ih stillRuns (fun f mem => connected f (mem_cons_of_mem _ mem)),
      sentFrom_step runs now,append_assoc]
    congr 1
    cases offers : e.offers src with
    | none =>
      have same : (Kind.datagrams,src) ∈ (step b e).1.returned ↔ (Kind.datagrams,src) ∈ b.returned := by
        rw [returned]
        simp [loop_of_not_offers offers]
      simp [same,offers]
    | some item =>
      obtain ⟨data,sent⟩ := item
      obtain ⟨own,works⟩ := loop_of_offers offers
      by_cases gone : (Kind.datagrams,src) ∈ b.returned
      · have stays : (Kind.datagrams,src) ∈ (step b e).1.returned := (returned _).mpr (Or.inl gone)
        simp [gone,stays]
      · cases sent with
        | true => simp [returned,gone,works,offers]
        | false => simp [returned,gone,own,works,offers]

/-- A direction forwards its datagrams up to the first that cannot be sent. -/
theorem datagrams_until_failure (connected : ∀ e ∈ events, e.connected = true) (src : Side) :
    sentFrom (final step start events) src =
      ((events.filterMap (Event.offers src)).takeWhile Prod.snd).map Prod.fst := by
  have all := sentFrom_final (b := start) rfl connected src
  simpa [sentFrom,start] using all

theorem first_datagram_sent : sentFrom (final step start threeDatagrams) .client = [[1]] :=
  (datagrams_until_failure (by decide) .client).trans (by decide)

end Pigeon.RelayBridge
