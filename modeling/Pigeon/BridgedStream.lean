import Pigeon.Framing
import Pigeon.RelayBridge

/-!
A bridged stream of the relay (`session.go`, `streamctl.go`, `quicserver.go`,
`webtransport.go`), with a goroutine of `bridgeStream` for each direction. A half-close
forwarded to a WebTransport stream cuts the other direction off, an end that stops reading
goes unnoticed, and a reset drops what is unread (`bridge_breaks`); otherwise everything that
was read arrives (`bridged_pair`).
-/
namespace Pigeon.BridgedStream
open Octets (Bytes)
open Framing (maxMessageSize)
open RelayBridge (Side)
open Runs List

def other : Side → Side
  | .client => .backend
  | .backend => .client

@[simp] theorem other_other (x : Side) : other (other x) = x := by cases x <;> rfl

instance {P : Side → Prop} [Decidable (P .client)] [Decidable (P .backend)] : Decidable (∀ x, P x) :=
  decidable_of_iff (P .client ∧ P .backend)
    ⟨fun pair x => match x with | .client => pair.1 | .backend => pair.2,fun all => ⟨all .client,all .backend⟩⟩

inductive Transport
  | quic
  | webTransport
deriving DecidableEq

/-- Where a goroutine in `bridgeStream` is. `Reset` of a WebTransport stream sets its deadline before it cancels. -/
inductive Phase
  | reading
  | holding (msg : Bytes)
  | resetting
  | done
deriving DecidableEq

structure Direction where
  sink : Transport
  -- what the source has done, and what of it the bridge has not read
  (sent pending : List Bytes)
  (fin reset : Bool)
  -- the reading half of the source's stream at the bridge
  (readDeadline cancelRead : Bool)
  phase : Phase
  read : List Bytes
  -- the writing half of the sink's stream at the bridge
  written : List Bytes
  (closed cancelWrite : Bool)
  -- what the sink has not read, has read, and whether it has stopped reading
  (inFlight delivered : List Bytes)
  stopSending : Bool
deriving DecidableEq

abbrev State := Side → Direction

def start (transport : Side → Transport) : State := fun x =>
  ⟨transport (other x),[],[],false,false,false,false,.reading,[],[],false,false,[],[],false⟩

def both (x : Side) (d back : Direction) : State := fun z => if z = x then d else back

/-- `closeWritePair` of the sink's stream; `CloseWrite` of a WebTransport stream is its `Close`, which sets a read
    deadline in the past. -/
def closeWritePair (d back : Direction) : Direction × Direction :=
  match d.sink with
  | .quic => ({ d with phase := .done, closed := true },back)
  | .webTransport => ({ d with phase := .done, closed := true },{ back with readDeadline := true })

/-- `CancelWrite` and `CancelRead` of the sink's stream: what is in flight is lost. -/
def cancelPair (d back : Direction) : Direction × Direction :=
  ({ d with phase := .done, cancelWrite := true, inFlight := [] },{ back with cancelRead := true })

/-- `wtStreamWrapper.Reset` of both streams. -/
def resetPair (d back : Direction) : Direction × Direction :=
  match d.sink with
  | .quic => cancelPair d back
  | .webTransport => ({ d with phase := .resetting },{ back with readDeadline := true })

/-- The next step of `bridgeStream`, which leaves everything as it is when the read has to wait. -/
def copy (d back : Direction) : Direction × Direction :=
  match d.phase with
  | .done => (d,back)
  | .resetting => cancelPair d back
  | .holding msg =>
    if d.stopSending || d.cancelWrite || d.closed then ({ d with phase := .done },back)
    else ({ d with phase := .reading, written := d.written ++ [msg], inFlight := d.inFlight ++ [msg] },back)
  | .reading =>
    if d.reset || d.cancelRead then resetPair d back
    else if d.readDeadline then closeWritePair d back
    else
      match d.pending with
      | msg :: rest => ({ d with phase := .holding msg, pending := rest, read := d.read ++ [msg] },back)
      | [] => if d.fin then closeWritePair d back else (d,back)

inductive Event
  | send (x : Side) (msg : Bytes)
  | halfClose (x : Side)
  | reset (x : Side)
  | stopSending (x : Side)
  | receive (x : Side)
  | copy (x : Side)

def Direction.sends (d : Direction) (msg : Bytes) : Direction :=
  if d.fin || d.reset || d.cancelRead || decide (maxMessageSize < msg.length) then d
  else { d with sent := d.sent ++ [msg], pending := d.pending ++ [msg] }

def Direction.halfCloses (d : Direction) : Direction := if d.reset then d else { d with fin := true }

def Direction.stops (d : Direction) : Direction := { d with stopSending := true, inFlight := [] }

def Direction.receives (d : Direction) : Direction :=
  match d.inFlight with
  | msg :: rest => if d.cancelWrite || d.stopSending then d
    else { d with inFlight := rest, delivered := d.delivered ++ [msg] }
  | [] => d

def step (s : State) : Event → State × Unit
  | .send x msg => (both x ((s x).sends msg) (s (other x)),())
  | .halfClose x => (both x (s x).halfCloses (s (other x)),())
  | .reset x => (both x { s x with reset := true } (s (other x)),())
  | .stopSending x => (both x (s x) (s (other x)).stops,())
  | .receive x => (both x (s x) (s (other x)).receives,())
  | .copy x => (both x (copy (s x) (s (other x))).1 (copy (s x) (s (other x))).2,())

def Phase.held : Phase → List Bytes
  | .holding msg => [msg]
  | _ => []

def InOrder (s : State) : Prop := ∀ x, (s x).delivered <+: (s x).read
deriving Decidable

def Complete (s : State) : Prop :=
  ∀ x, (s x).delivered ++ (s x).inFlight ++ (s x).phase.held = (s x).read
deriving Decidable

def Untruncated (s : State) : Prop :=
  (∀ x, (s x).reset = false) → ∀ x, (s x).closed = true → (s x).fin = true ∧ (s x).read = (s x).sent
deriving Decidable

def Quiet (s : State) : Prop := ∀ x, copy (s x) (s (other x)) = (s x,s (other x))
deriving Decidable

def Aborted (s : State) (x : Side) : Prop := (s x).reset = true ∨ (s (other x)).stopSending = true
deriving Decidable

def SeesAbort (s : State) (x : Side) : Prop := (s (other x)).cancelWrite = true ∨ (s x).cancelRead = true
deriving Decidable

def AbortsSeen (s : State) : Prop :=
  Quiet s → ∀ x, Aborted s x → ¬ Aborted s (other x) → SeesAbort s (other x)
deriving Decidable

/-- A reset comes while its goroutine runs and is forwarded with everything read; an end stops reading only after a
    reset, with nothing under way; a half-close reaches a WebTransport stream when the other direction is over. -/
def Harmless (s : State) : Event → Prop
  | .reset x => (s x).phase ≠ .done
  | .stopSending x =>
    (s x).reset = true ∧ (s (other x)).inFlight = [] ∧ (s (other x)).phase.held = []
  | .copy x =>
    (s x).phase = .reading →
      if (s x).reset || (s x).cancelRead then (s x).inFlight = []
      else if (s x).readDeadline then True
      else if (s x).pending = [] then
        (s x).fin = true → (s x).sink = .webTransport → (s (other x)).phase = .done
      else (s x).stopSending = false
  | _ => True

instance (s : State) : (e : Event) → Decidable (Harmless s e)
  | .reset _ => inferInstanceAs (Decidable (_ ≠ _))
  | .stopSending _ => inferInstanceAs (Decidable (_ ∧ _))
  | .copy _ => inferInstanceAs (Decidable (_ → ite _ _ _))
  | .send _ _ | .halfClose _ | .receive _ => inferInstanceAs (Decidable True)

variable {d back : Direction}

theorem forall_both {P : Direction → Direction → Prop} {x : Side} (pair : P d back ∧ P back d) :
    ∀ z, P (both x d back z) (both x d back (other z)) := by
  intro z
  cases x <;> cases z
  · exact pair.1
  · exact pair.2
  · exact pair.2
  · exact pair.1

theorem copy_rule {P : Direction × Direction → Prop} (waits : P (d,back))
    (cancels : d.phase = .resetting ∨ d.phase = .reading ∧ (d.reset || d.cancelRead) = true → P (cancelPair d back))
    (defers : d.phase = .reading → (d.reset || d.cancelRead) = true →
      P ({ d with phase := .resetting },{ back with readDeadline := true }))
    (drops : ∀ msg, d.phase = .holding msg → (d.stopSending || d.cancelWrite || d.closed) = true →
      P ({ d with phase := .done },back))
    (writes : ∀ msg, d.phase = .holding msg → (d.stopSending || d.cancelWrite || d.closed) = false →
      P ({ d with phase := .reading, written := d.written ++ [msg], inFlight := d.inFlight ++ [msg] },back))
    (closes : d.phase = .reading → (d.reset || d.cancelRead) = false →
      d.readDeadline = true ∨ d.readDeadline = false ∧ d.pending = [] ∧ d.fin = true → P (closeWritePair d back))
    (reads : ∀ msg rest, d.phase = .reading → (d.reset || d.cancelRead) = false → d.readDeadline = false →
      d.pending = msg :: rest →
      P ({ d with phase := .holding msg, pending := rest, read := d.read ++ [msg] },back)) :
    P (copy d back) := by
  rw [copy]
  split
  next => exact waits
  next phase => exact cancels (.inl phase)
  next msg phase =>
    split
    next shut => exact drops msg phase shut
    next free => exact writes msg phase (by simpa using free)
  next phase =>
    split
    next ended =>
      rw [resetPair]
      split
      · exact cancels (.inr ⟨phase,ended⟩)
      · exact defers phase ended
    next alive =>
      have alive : (d.reset || d.cancelRead) = false := by simpa using alive
      split
      next past => exact closes phase alive (.inl past)
      next inTime =>
        have inTime : d.readDeadline = false := by simpa using inTime
        split
        next msg rest pending => exact reads msg rest phase alive inTime pending
        next empty => exact of_guard waits (fun fin => closes phase alive (.inr ⟨inTime,empty,fin⟩))

/-- What is written is what was read, but for the message held, and the sink gets its beginning.
    -/
structure Ordered (d : Direction) : Prop where
  going : d.phase ≠ .done → d.closed = false ∧ d.cancelWrite = false
  whole : d.phase ≠ .done → d.written ++ d.phase.held = d.read
  part : d.written <+: d.read
  arrives : d.delivered ++ d.inFlight <+: d.written
  all : d.cancelWrite = false → d.stopSending = false → d.delivered ++ d.inFlight = d.written

theorem Ordered.inOrder (ordered : Ordered d) : d.delivered <+: d.read :=
  ((prefix_append _ _).trans ordered.arrives).trans ordered.part

theorem ordered_copy (ordered : Ordered d) (opposite : Ordered back) :
    Ordered (copy d back).1 ∧ Ordered (copy d back).2 := by
  have expired : Ordered { back with readDeadline := true } := { opposite with }
  apply copy_rule (P := fun r => Ordered r.1 ∧ Ordered r.2)
  case waits => exact ⟨ordered,opposite⟩
  case cancels =>
    intro _
    refine ⟨⟨fun running => absurd rfl running,fun running => absurd rfl running,ordered.part,?_,
      fun kept => absurd kept (by simp [cancelPair])⟩,
      { opposite with }⟩
    simpa [cancelPair] using (prefix_append _ _).trans ordered.arrives
  case defers =>
    intro phase _
    refine ⟨{ ordered with going := fun _ => ordered.going (by simp [phase]), whole := fun _ => ?_ },expired⟩
    simpa [phase,Phase.held] using ordered.whole
  case drops =>
    intro msg _ _
    exact ⟨{ ordered with going := fun running => absurd rfl running, whole := fun running => absurd rfl running },opposite⟩
  case writes =>
    intro msg phase free
    simp only [Bool.or_eq_false_iff] at free
    have read : d.written ++ [msg] = d.read := by simpa [phase,Phase.held] using ordered.whole
    have same : d.delivered ++ (d.inFlight ++ [msg]) = d.written ++ [msg] := by
      rw [← append_assoc,ordered.all free.1.2 free.1.1]
    refine ⟨⟨fun _ => ⟨free.2,free.1.2⟩,fun _ => ?_,?_,?_,fun _ _ => same⟩,opposite⟩
    · simpa [Phase.held] using read
    · exact ⟨[],(append_nil _).trans read⟩
    · exact ⟨[],(append_nil _).trans same⟩
  case closes =>
    intro _ _ _
    have closed : Ordered { d with phase := .done, closed := true } :=
      { ordered with going := fun running => absurd rfl running, whole := fun running => absurd rfl running }
    rw [closeWritePair]
    split
    · exact ⟨closed,opposite⟩
    · exact ⟨closed,expired⟩
  case reads =>
    intro msg rest phase _ _ _
    have read : d.written = d.read := by simpa [phase,Phase.held] using ordered.whole
    refine ⟨⟨fun _ => ordered.going (by simp [phase]),fun _ => ?_,?_,ordered.arrives,ordered.all⟩,opposite⟩
    · simp [Phase.held,read]
    · exact ordered.part.trans (prefix_append _ _)

theorem ordered_receives (ordered : Ordered d) : Ordered d.receives := by
  rw [Direction.receives]
  split
  next msg rest inFlight =>
    split
    · exact ordered
    · have same : (d.delivered ++ [msg]) ++ rest = d.delivered ++ d.inFlight := by simp [inFlight]
      refine { ordered with arrives := ?_, all := ?_ }
      · rw [same]
        exact ordered.arrives
      · rw [same]
        exact ordered.all
  next => exact ordered

theorem ordered_step (s : State) (e : Event) (ordered : ∀ x, Ordered (s x)) : ∀ x, Ordered ((step s e).1 x) := by
  have of_both : ∀ {x : Side} {d back : Direction}, Ordered d → Ordered back → ∀ z, Ordered (both x d back z) := by
    intro x d back first second
    exact forall_both (P := fun d _ => Ordered d) ⟨first,second⟩
  cases e with
  | send x | halfClose x =>
    refine of_both ?_ (ordered (other x))
    simp only [Direction.sends,Direction.halfCloses]
    split
    · exact ordered x
    · exact ⟨(ordered x).going,(ordered x).whole,(ordered x).part,(ordered x).arrives,(ordered x).all⟩
  | reset x =>
    exact of_both ⟨(ordered x).going,(ordered x).whole,(ordered x).part,(ordered x).arrives,(ordered x).all⟩
      (ordered (other x))
  | stopSending x =>
    have opposite := ordered (other x)
    refine of_both (ordered x) { opposite with arrives := ?_, all := fun _ wanted => absurd wanted (by simp [Direction.stops]) }
    simpa [Direction.stops] using (prefix_append _ _).trans opposite.arrives
  | receive x => exact of_both (ordered x) (ordered_receives (ordered (other x)))
  | copy x =>
    have copied := ordered_copy (ordered x) (ordered (other x))
    exact of_both copied.1 copied.2

theorem ordered_start (transport : Side → Transport) (x : Side) : Ordered (start transport x) :=
  ⟨fun _ => ⟨rfl,rfl⟩,fun _ => rfl,prefix_refl _,prefix_refl _,fun _ _ => rfl⟩

structure Kept (d back : Direction) : Prop where
  complete : d.delivered ++ d.inFlight ++ d.phase.held = d.read
  taken : d.read ++ d.pending = d.sent
  wanted : d.phase.held ≠ [] → d.stopSending = false
  emptied : d.phase = .resetting → d.inFlight = [] ∧ (d.reset || back.reset) = true
  ended : d.closed = true → (d.reset || back.reset) = true ∨ d.fin = true ∧ d.pending = []
  expired : d.readDeadline = true → d.phase = .done ∨ (d.reset || back.reset) = true
  cancelled : d.cancelRead = true → (d.reset || back.reset) = true
  stopped : d.stopSending = true → back.reset = true
  forwarded : d.reset = true → d.phase = .done → d.cancelWrite = true ∨ d.stopSending = true

section
variable (kept : Kept d back)
include kept

theorem Kept.beside {back' : Direction} (grows : back.reset → back'.reset) : Kept d back' := by
  have either : (d.reset || back.reset) = true → (d.reset || back'.reset) = true := by
    simp only [Bool.or_eq_true]
    exact Or.imp_right grows
  exact ⟨kept.complete,kept.taken,kept.wanted,fun phase => (kept.emptied phase).imp_right either,
    fun closed => (kept.ended closed).imp_left either,fun past => (kept.expired past).imp_right either,
    fun cancel => either (kept.cancelled cancel),fun stop => grows (kept.stopped stop),kept.forwarded⟩

theorem Kept.expires (due : d.phase = .done ∨ (d.reset || back.reset) = true) :
    Kept { d with readDeadline := true } back :=
  { kept with expired := fun _ => due }

theorem Kept.cancels (due : (d.reset || back.reset) = true) : Kept { d with cancelRead := true } back :=
  { kept with cancelled := fun _ => due }

theorem Kept.sends (msg : Bytes) : Kept (d.sends msg) back := by
  rw [Direction.sends]
  split
  next => exact kept
  next accepted =>
    simp only [Bool.or_eq_true,not_or,Bool.not_eq_true] at accepted
    refine { kept with taken := ?_, ended := ?_ }
    · simp [← kept.taken]
    · intro closed
      rcases kept.ended closed with reset | ended
      · exact .inl reset
      · exact absurd ended.1 (by simp [accepted.1.1.1])

theorem Kept.halfCloses : Kept d.halfCloses back := by
  rw [Direction.halfCloses]
  split
  · exact kept
  · exact { kept with ended := fun closed => (kept.ended closed).imp_right (fun ended => ⟨rfl,ended.2⟩) }

theorem Kept.resets (running : d.phase ≠ .done) : Kept { d with reset := true } back :=
  ⟨kept.complete,kept.taken,kept.wanted,fun phase => ⟨(kept.emptied phase).1,rfl⟩,fun _ => .inl rfl,
    fun _ => .inr rfl,fun _ => rfl,kept.stopped,fun _ done => absurd done running⟩

theorem Kept.stops (reset : back.reset) (inFlight : d.inFlight = []) (held : d.phase.held = []) : Kept d.stops back :=
  ⟨by simpa [Direction.stops,inFlight] using kept.complete,kept.taken,fun some => absurd held some,
    fun phase => ⟨rfl,(kept.emptied phase).2⟩,kept.ended,kept.expired,kept.cancelled,fun _ => reset,
    fun _ _ => .inr rfl⟩

theorem Kept.receives : Kept d.receives back := by
  rw [Direction.receives]
  split
  next msg rest inFlight =>
    split
    · exact kept
    · refine { kept with complete := ?_, emptied := ?_ }
      · simpa [inFlight] using kept.complete
      · intro phase
        exact absurd (kept.emptied phase).1 (by simp [inFlight])
  next => exact kept

theorem Kept.defers (phase : d.phase = .reading) (inFlight : d.inFlight = []) (reset : (d.reset || back.reset) = true) :
    Kept { d with phase := .resetting } back :=
  ⟨by simpa [phase,Phase.held] using kept.complete,kept.taken,fun some => absurd rfl some,fun _ => ⟨inFlight,reset⟩,
    kept.ended,fun _ => .inr reset,kept.cancelled,kept.stopped,nofun⟩

theorem Kept.writes {msg : Bytes} (phase : d.phase = .holding msg) :
    Kept { d with phase := .reading, written := d.written ++ [msg], inFlight := d.inFlight ++ [msg] } back :=
  ⟨by simpa [phase,Phase.held] using kept.complete,kept.taken,fun some => absurd rfl some,nofun,kept.ended,
    fun past => (kept.expired past).imp_left (by simp [phase]),kept.cancelled,kept.stopped,nofun⟩

theorem Kept.reads {msg : Bytes} {rest : List Bytes} (phase : d.phase = .reading) (inTime : d.readDeadline = false)
    (pending : d.pending = msg :: rest) (going : d.closed = false) (wanted : d.stopSending = false) :
    Kept { d with phase := .holding msg, pending := rest, read := d.read ++ [msg] } back := by
  have complete : d.delivered ++ d.inFlight = d.read := by simpa [phase,Phase.held] using kept.complete
  refine ⟨?_,?_,fun _ => wanted,nofun,fun closed => absurd closed (by simp [going]),
    fun past => absurd past (by simp [inTime]),kept.cancelled,kept.stopped,nofun⟩
  · simp [Phase.held,← complete]
  · simpa [pending] using kept.taken

theorem kept_cancelPair (opposite : Kept back d) (inFlight : d.inFlight = []) (held : d.phase.held = [])
    (reset : (d.reset || back.reset) = true) :
    Kept (cancelPair d back).1 (cancelPair d back).2 ∧ Kept (cancelPair d back).2 (cancelPair d back).1 := by
  have complete := kept.complete
  rw [inFlight,held] at complete
  refine ⟨?_,(opposite.cancels (by rwa [Bool.or_comm])).beside id⟩
  exact ⟨by simpa [cancelPair,Phase.held] using complete,kept.taken,
    fun some => absurd rfl some,nofun,kept.ended,fun _ => .inl rfl,
    kept.cancelled,kept.stopped,fun _ _ => .inl rfl⟩

theorem kept_closeWritePair (opposite : Kept back d) (phase : d.phase = .reading) (alive : d.reset = false)
    (ended : (d.reset || back.reset) = true ∨ d.fin = true ∧ d.pending = [])
    (due : d.sink = .webTransport → back.phase = .done ∨ (back.reset || d.reset) = true) :
    Kept (closeWritePair d back).1 (closeWritePair d back).2 ∧
      Kept (closeWritePair d back).2 (closeWritePair d back).1 := by
  have closed : Kept { d with phase := .done, closed := true } back :=
    ⟨by simpa [phase,Phase.held] using kept.complete,kept.taken,
      fun some => absurd rfl some,nofun,fun _ => ended,fun _ => .inl rfl,kept.cancelled,kept.stopped,
      fun reset => absurd reset (by simp [alive])⟩
  rw [closeWritePair]
  split
  next => exact ⟨closed,opposite.beside id⟩
  next sink => exact ⟨closed.beside id,(opposite.expires (due sink)).beside id⟩

end

theorem kept_copy {s : State} {x : Side} (ordered : Ordered (s x)) (kept : Kept (s x) (s (other x)))
    (opposite : Kept (s (other x)) (s x)) (harmless : Harmless s (.copy x)) :
    Kept (copy (s x) (s (other x))).1 (copy (s x) (s (other x))).2 ∧
      Kept (copy (s x) (s (other x))).2 (copy (s x) (s (other x))).1 := by
  simp only [Harmless] at harmless
  generalize s x = d at *
  generalize s (other x) = back at *
  have aborted : (d.reset || d.cancelRead) = true → (d.reset || back.reset) = true := by
    intro ended
    cases reset : d.reset with
    | true => rfl
    | false =>
      rw [reset,Bool.false_or] at ended
      simpa [reset] using kept.cancelled ended
  apply copy_rule (P := fun r => Kept r.1 r.2 ∧ Kept r.2 r.1)
  case waits => exact ⟨kept,opposite⟩
  case cancels =>
    rintro (phase | ⟨phase,ended⟩)
    · exact kept_cancelPair kept opposite (kept.emptied phase).1 (by rw [phase]; rfl) (kept.emptied phase).2
    · have inFlight := harmless phase
      rw [if_pos ended] at inFlight
      exact kept_cancelPair kept opposite inFlight (by rw [phase]; rfl) (aborted ended)
  case defers =>
    intro phase ended
    have inFlight := harmless phase
    rw [if_pos ended] at inFlight
    exact ⟨(kept.defers phase inFlight (aborted ended)).beside id,
      (opposite.expires (.inr (by rw [Bool.or_comm]; exact aborted ended))).beside id⟩
  case drops =>
    intro msg phase shut
    have going := ordered.going (by simp [phase])
    have wanted := kept.wanted (by simp [phase,Phase.held])
    exact absurd shut (by simp [going,wanted])
  case writes =>
    intro msg phase _
    exact ⟨kept.writes phase,opposite.beside id⟩
  case closes =>
    intro phase alive why
    simp only [Bool.or_eq_false_iff] at alive
    rcases why with past | ⟨inTime,empty,fin⟩
    · have reset := (kept.expired past).resolve_left (by simp [phase])
      exact kept_closeWritePair kept opposite phase alive.1 (.inl reset) (fun _ => .inr (by rwa [Bool.or_comm]))
    · have idle := harmless phase
      simp only [alive,inTime,empty,Bool.or_self,Bool.false_eq_true,↓reduceIte] at idle
      exact kept_closeWritePair kept opposite phase alive.1 (.inr ⟨fin,empty⟩) (fun sink => .inl (idle fin sink))
  case reads =>
    intro msg rest phase alive inTime pending
    have going := ordered.going (by simp [phase])
    have wanted := harmless phase
    simp only [alive,inTime,pending,Bool.false_eq_true,reduceCtorEq,↓reduceIte] at wanted
    exact ⟨kept.reads phase inTime pending going.1 wanted,opposite.beside id⟩

theorem kept_step (s : State) (e : Event) (ordered : ∀ x, Ordered (s x)) (kept : ∀ x, Kept (s x) (s (other x)))
    (harmless : Harmless s e) : ∀ x, Kept ((step s e).1 x) ((step s e).1 (other x)) := by
  have opposite : ∀ x, Kept (s (other x)) (s x) := fun x => by simpa using kept (other x)
  cases e with
  | send x msg =>
    have same : ((s x).sends msg).reset = (s x).reset := by
      rw [Direction.sends]
      split <;> rfl
    exact forall_both ⟨(kept x).sends msg,(opposite x).beside (by rw [same]; exact id)⟩
  | halfClose x =>
    have same : (s x).halfCloses.reset = (s x).reset := by
      rw [Direction.halfCloses]
      split <;> rfl
    exact forall_both ⟨(kept x).halfCloses,(opposite x).beside (by rw [same]; exact id)⟩
  | reset x => exact forall_both ⟨(kept x).resets harmless,(opposite x).beside (fun _ => rfl)⟩
  | stopSending x =>
    exact forall_both ⟨(kept x).beside id,(opposite x).stops harmless.1 harmless.2.1 harmless.2.2⟩
  | receive x =>
    have same : (s (other x)).receives.reset = (s (other x)).reset := by
      rw [Direction.receives]
      split
      · split <;> rfl
      · rfl
    exact forall_both ⟨(kept x).beside (by rw [same]; exact id),(opposite x).receives⟩
  | copy x => exact forall_both (kept_copy (ordered x) (kept x) (opposite x) harmless)

theorem kept_start (transport : Side → Transport) (x : Side) : Kept (start transport x) (start transport (other x)) :=
  ⟨rfl,rfl,fun _ => rfl,nofun,nofun,nofun,nofun,nofun,nofun⟩

theorem complete_of_kept {s} (kept : ∀ x, Kept (s x) (s (other x))) : Complete s := fun x => (kept x).complete

theorem untruncated_of_kept {s} (kept : ∀ x, Kept (s x) (s (other x))) : Untruncated s := by
  intro calm x closed
  rcases (kept x).ended closed with reset | ⟨fin,empty⟩
  · exact absurd reset (by simp [calm])
  · have taken := (kept x).taken
    rw [empty,append_nil] at taken
    exact ⟨fin,taken⟩

theorem done_of_reset (rests : copy d back = (d,back)) (reset : d.reset) : d.phase = .done := by
  have same : (copy d back).1.phase = d.phase := by rw [rests]
  cases phase : d.phase with
  | done => rfl
  | resetting => simp [copy,phase,cancelPair] at same
  | holding msg =>
    rw [copy] at same
    simp only [phase] at same
    split at same <;> exact absurd same nofun
  | reading =>
    rw [copy] at same
    simp only [phase,reset,Bool.true_or,↓reduceIte,resetPair] at same
    split at same <;> exact absurd same nofun

theorem abortsSeen_of_kept {s} (kept : ∀ x, Kept (s x) (s (other x))) : AbortsSeen s := by
  intro quiet x aborted alone
  simp only [Aborted,other_other,not_or] at alone
  have reset : (s x).reset = true := by
    rcases aborted with reset | stopped
    · exact reset
    · simpa using (kept (other x)).stopped stopped
  have done := done_of_reset (quiet x) reset
  rcases (kept x).forwarded reset done with cancel | stopped
  · exact .inl (by simpa using cancel)
  · exact absurd stopped alone.2

end Pigeon.BridgedStream
