import Pigeon.Framing
import Pigeon.Sequence
import Pigeon.Threads

/-!
Verification of connections by the LAN server (`lan.go`). Every entry is in one place at most:
in the map, with one connection, or among those whose callback has run (`Single`). So a
callback runs at most once, and only for a connection with its ID and challenge
(`callback_runs_once_for_its_message`).
-/
namespace Pigeon.LanServer
open Octets Framing Runs Sequence Threads List Function

structure LanVerify where
  (challenge instanceID : Bytes)
deriving DecidableEq

/-- `pendingLAN`, with the number of the registration that made it; a callback is known by the session that it belongs
    to. -/
structure PendingLAN where
  serial : Nat
  challenge : Bytes
  onVerify : Option Nat
deriving DecidableEq

/-- How far `handleConn` has come with a connection. -/
inductive Handler
  | accepted
  | reading (verify : LanVerify)
  | looked (verify : LanVerify) (pending : PendingLAN)
  | equal (verify : LanVerify) (pending : PendingLAN)
  | confirmed (verify : LanVerify) (pending : PendingLAN)
  | finished (reason : Option String)
deriving DecidableEq

/-- The map, the connections, and what has happened: registrations, and the callbacks that ran.
    -/
structure State where
  conns : Bytes → Option PendingLAN
  handlers : List Handler
  registered : List (Bytes × Bytes)
  ran : List (Nat × Nat)

def start : State := ⟨fun _ => none,[],[],[]⟩

def challengeEqual (a b : Bytes) : Bool := if a.length ≠ b.length then false else decide (a = b)

inductive Event
  | registerPending (id challenge : Bytes) (onVerify : Option Nat)
  | unregisterPending (id : Bytes)
  | accept
  | read (c : Nat) (stream : Option Bytes)
  | lookup (c : Nat)
  | compare (c : Nat)
  | confirm (c : Nat) (written : Bool)
  | call (c : Nat)
deriving DecidableEq

def State.set (s : State) (c : Nat) (h : Handler) : State := { s with handlers := s.handlers.set c h }

/-- `LANServer.RegisterPending`. -/
def State.registerPending (s : State) (id challenge : Bytes) (onVerify : Option Nat) : State :=
  if id = [] then s
  else
    { s with
      conns := update s.conns id (some ⟨s.registered.length,challenge,onVerify⟩)
      registered := s.registered ++ [(id,challenge)] }

/-- `LANServer.UnregisterPending`. -/
def State.unregisterPending (s : State) (id : Bytes) : State := { s with conns := update s.conns id none }

section
/- `json.Unmarshal` into a `lanVerify`. -/
variable (unmarshal : Bytes → Option LanVerify)

/-- The head of `handleConn`: the stream that the peer opens, and the message on it. -/
def received : Option Bytes → Handler
  | none => .finished (some "no stream")
  | some stream =>
    match (readMessage stream).2 with
    | none => .finished (some "read verify failed")
    | some data =>
      match unmarshal data with
      | none => .finished (some "bad verify")
      | some verify => .reading verify

def State.takeOut (s : State) (c : Nat) (verify : LanVerify) (pending : PendingLAN) : State :=
  { s with conns := update s.conns verify.instanceID none }.set c (.looked verify pending)

def State.lookup (s : State) (c : Nat) (verify : LanVerify) : State :=
  match s.conns verify.instanceID with
  | none => s.set c (.finished (some "unknown instance"))
  | some pending => s.takeOut c verify pending

def State.call (s : State) (c : Nat) (pending : PendingLAN) : State :=
  let done := s.set c (.finished none)
  if pending.onVerify.isSome then { done with ran := s.ran ++ [(pending.serial,c)] } else done

/-- The steps are those of `LANServer.handleConn`. -/
def step (s : State) : Event → State × Unit
  | .registerPending id challenge onVerify => (s.registerPending id challenge onVerify,())
  | .unregisterPending id => (s.unregisterPending id,())
  | .accept => ({ s with handlers := s.handlers ++ [.accepted] },())
  | .read c stream =>
    match s.handlers[c]? with
    | some .accepted => (s.set c (received unmarshal stream),())
    | _ => (s,())
  | .lookup c =>
    match s.handlers[c]? with
    | some (.reading verify) => (s.lookup c verify,())
    | _ => (s,())
  | .compare c =>
    match s.handlers[c]? with
    | some (.looked verify pending) =>
      (s.set c (if challengeEqual pending.challenge verify.challenge then .equal verify pending
        else .finished (some "bad challenge")),())
    | _ => (s,())
  | .confirm c written =>
    match s.handlers[c]? with
    | some (.equal verify pending) =>
      (s.set c (if written then .confirmed verify pending else .finished (some "write confirm failed")),())
    | _ => (s,())
  | .call c =>
    match s.handlers[c]? with
    | some (.confirmed _ pending) => (s.call c pending,())
    | _ => (s,())

end

theorem challengeEqual_iff {a b} : challengeEqual a b ↔ a = b := by
  unfold challengeEqual
  split
  next apart =>
    refine ⟨fun no => (Bool.false_ne_true no).elim,?_⟩
    rintro rfl
    exact absurd rfl apart
  next => exact decide_eq_true_iff

def Handler.pending : Handler → Option PendingLAN
  | .looked _ pending | .equal _ pending | .confirmed _ pending => some pending
  | _ => none

def Handler.holds (n : Nat) (h : Handler) : Bool := h.pending.any (·.serial == n)

def State.isPending (s : State) (n : Nat) : Bool :=
  (s.registered[n]?).any (fun entry => (s.conns entry.1).any (·.serial == n))

def State.places (s : State) (n : Nat) : Nat :=
  (s.isPending n).toNat + s.handlers.countP (Handler.holds n) + (s.ran.map Prod.fst).count n

structure Single (s : State) : Prop where
  known : ∀ id pending, s.conns id = some pending → s.registered[pending.serial]? = some (id,pending.challenge)
  once : ∀ n, s.places n ≤ 1
  later : ∀ n, s.registered.length ≤ n → s.places n = 0

theorem single_start : Single start := by
  have nowhere (n : Nat) : start.places n = 0 := by simp [State.places,State.isPending,start]
  refine ⟨?_,?_,fun n _ => nowhere n⟩
  · intro id pending none
    cases none
  · intro n
    rw [nowhere n]
    exact Nat.zero_le 1

variable {s : State}

variable {pending : PendingLAN} {c : Nat} {verify : LanVerify} {events : List Event}

theorem isPending_of_known (single : Single s) {id : Bytes} (there : s.conns id = some pending) :
    s.isPending pending.serial := by
  simp [State.isPending,single.known id pending there,there]

theorem isPending_le (s t : State) (registered : t.registered = s.registered)
    (fewer : ∀ id pending, t.conns id = some pending → s.conns id = some pending) (n : Nat) :
    (t.isPending n).toNat ≤ (s.isPending n).toNat := by
  cases now : t.isPending n with
  | false => exact Nat.zero_le _
  | true =>
    have before : s.isPending n = true := by
      simp only [State.isPending,registered,Option.any_eq_true] at now ⊢
      obtain ⟨entry,found,pending,there,same⟩ := now
      exact ⟨entry,found,pending,fewer _ _ there,same⟩
    rw [before]

theorem Single.fewer (old : Single s) {t : State} (registered : t.registered = s.registered)
    (conns : ∀ id pending, t.conns id = some pending → s.conns id = some pending)
    (places : ∀ n, t.places n ≤ s.places n) : Single t := by
  refine ⟨?_,fun n => Nat.le_trans (places n) (old.once n),?_⟩
  · intro id pending there
    rw [registered]
    exact old.known id pending (conns id pending there)
  · intro n beyond
    rw [registered] at beyond
    have none := old.later n beyond
    have less := places n
    omega

theorem of_update_none {conns : Bytes → Option PendingLAN} {id other : Bytes}
    (there : update conns id none other = some pending) : conns other = some pending ∧ other ≠ id := by
  by_cases same : other = id
  · subst same
    rw [update_self] at there
    cases there
  · rw [update_of_ne same] at there
    exact ⟨there,same⟩

theorem Single.unregisterPending (old : Single s) (id : Bytes) : Single (s.unregisterPending id) := by
  have conns (other : Bytes) (pending : PendingLAN) (there : (s.unregisterPending id).conns other = some pending) :
      s.conns other = some pending := (of_update_none there).1
  refine old.fewer rfl conns ?_
  intro n
  have less : ((s.unregisterPending id).isPending n).toNat ≤ (s.isPending n).toNat :=
    isPending_le s (s.unregisterPending id) rfl conns n
  simp only [State.places]
  exact Nat.add_le_add_right (Nat.add_le_add_right less _) _

theorem Single.set (old : Single s) {before after : Handler} (at_c : s.handlers[c]? = some before)
    (holds : ∀ n, after.holds n → before.holds n) : Single (s.set c after) := by
  refine old.fewer rfl (fun _ _ there => there) ?_
  intro n
  have moved := countP_move (p := Handler.holds n) at_c after
  have less : (after.holds n).toNat ≤ (before.holds n).toNat := by
    cases now : after.holds n with
    | false => exact Nat.zero_le _
    | true => rw [holds n now]
  have pending : (s.set c after).isPending n = s.isPending n := rfl
  simp only [State.places,pending]
  simp only [State.set]
  omega

theorem places_registered (s : State) (id challenge : Bytes) (onVerify : Option Nat) (n : Nat) :
    (State.mk (update s.conns id (some ⟨s.registered.length,challenge,onVerify⟩)) s.handlers
        (s.registered ++ [(id,challenge)]) s.ran).places n ≤
      s.places n + (decide (n = s.registered.length)).toNat := by
  have pending : ((State.mk (update s.conns id (some ⟨s.registered.length,challenge,onVerify⟩)) s.handlers
      (s.registered ++ [(id,challenge)]) s.ran).isPending n).toNat ≤
      (s.isPending n).toNat + (decide (n = s.registered.length)).toNat := by
    by_cases new : n = s.registered.length
    · rw [decide_eq_true new]
      exact Nat.le_trans (Bool.toNat_le _) (Nat.le_add_left _ _)
    · refine Nat.le_trans ?_ (Nat.le_add_right _ _)
      cases now : (State.mk (update s.conns id (some ⟨s.registered.length,challenge,onVerify⟩)) s.handlers
        (s.registered ++ [(id,challenge)]) s.ran).isPending n with
      | false => exact Nat.zero_le _
      | true =>
        simp only [State.isPending,Option.any_eq_true] at now
        obtain ⟨entry,found,pending,there,same⟩ := now
        have found := (getElem?_snoc_cases found).resolve_right (fun last => new last.1)
        have before : s.isPending n = true := by
          by_cases under : entry.1 = id
          · rw [under,update_self] at there
            cases there
            exact absurd (beq_iff_eq.mp same).symm new
          · rw [update_of_ne under] at there
            simp only [State.isPending,Option.any_eq_true]
            exact ⟨entry,found,pending,there,same⟩
        rw [before]
  simp only [State.places]
  omega

theorem Single.registerPending (old : Single s) (id challenge : Bytes) (onVerify : Option Nat) :
    Single (s.registerPending id challenge onVerify) := by
  unfold State.registerPending
  split
  next => exact old
  next =>
    refine ⟨?_,?_,?_⟩
    · intro other pending there
      by_cases same : other = id
      · subst same
        simp only [update_self,Option.some.injEq] at there
        subst there
        simp
      · simp only [update_of_ne same] at there
        exact getElem?_append_some (old.known other pending there)
    · intro n
      have more := places_registered s id challenge onVerify n
      have before := old.once n
      by_cases new : n = s.registered.length
      · have none := old.later n (by omega)
        rw [decide_eq_true new,Bool.toNat_true] at more
        omega
      · rw [decide_eq_false new,Bool.toNat_false] at more
        omega
    · intro n beyond
      have more := places_registered s id challenge onVerify n
      rw [length_append,length_singleton] at beyond
      have none := old.later n (by omega)
      rw [decide_eq_false (by omega),Bool.toNat_false] at more
      omega

theorem Single.lookup (old : Single s) (at_c : s.handlers[c]? = some (.reading verify)) :
    Single (s.lookup c verify) := by
  unfold State.lookup
  split
  next => exact old.set at_c (fun _ holds => by cases holds)
  next pending found =>
    have conns (other : Bytes) (p : PendingLAN)
        (there : update s.conns verify.instanceID none other = some p) : s.conns other = some p :=
      (of_update_none there).1
    refine old.fewer rfl conns ?_
    intro n
    have moved := countP_move (p := Handler.holds n) at_c (.looked verify pending)
    have less : ((s.takeOut c verify pending).isPending n).toNat + ((Handler.looked verify pending).holds n).toNat ≤
        (s.isPending n).toNat := by
      by_cases same : pending.serial = n
      · subst same
        have gone : (s.takeOut c verify pending).isPending pending.serial = false := by
          simp [State.isPending,State.takeOut,State.set,old.known _ _ found]
        rw [gone,isPending_of_known old found]
        simp [Handler.holds,Handler.pending]
      · have other : (Handler.looked verify pending).holds n = false := by simp [Handler.holds,Handler.pending,same]
        rw [other]
        exact isPending_le s (s.takeOut c verify pending) rfl conns n
    have nothing : (Handler.reading verify).holds n = false := rfl
    rw [nothing,Bool.toNat_false] at moved
    simp only [State.places]
    simp only [State.takeOut,State.set] at less ⊢
    omega

theorem Single.call (old : Single s) (at_c : s.handlers[c]? = some (.confirmed verify pending)) :
    Single (s.call c pending) := by
  unfold State.call
  split
  next =>
    refine old.fewer rfl (fun _ _ there => there) ?_
    intro n
    have moved := countP_move (p := Handler.holds n) at_c (.finished none)
    have counted : (map Prod.fst (s.ran ++ [(pending.serial,c)])).count n =
        (s.ran.map Prod.fst).count n + ((Handler.confirmed verify pending).holds n).toNat := by
      rw [map_append,count_append]
      by_cases same : pending.serial = n <;> simp [Handler.holds,Handler.pending,same]
    have nothing : (Handler.finished none).holds n = false := rfl
    have unchanged : ({ s.set c (.finished none) with ran := s.ran ++ [(pending.serial,c)] } : State).isPending n =
        s.isPending n := rfl
    rw [nothing,Bool.toNat_false] at moved
    simp only [State.places,counted,unchanged]
    simp only [State.set]
    omega
  next => exact old.set at_c (fun _ holds => by cases holds)

section
variable (unmarshal : Bytes → Option LanVerify)

theorem received_holds (stream : Option Bytes) (n : Nat) : (received unmarshal stream).holds n = false := by
  unfold received
  split
  next => rfl
  next =>
    split
    next => rfl
    next => split <;> rfl

theorem Single.step (old : Single s) (e : Event) : Single (step unmarshal s e).1 := by
  cases e with
  | registerPending id challenge onVerify => exact old.registerPending id challenge onVerify
  | unregisterPending id => exact old.unregisterPending id
  | accept =>
    refine old.fewer rfl (fun _ _ there => there) ?_
    intro n
    have unchanged : (LanServer.step unmarshal s .accept).1.isPending n = s.isPending n := rfl
    have empty : Handler.accepted.holds n = false := rfl
    simp only [State.places,unchanged]
    simp [LanServer.step,empty]
  | read c stream =>
    simp only [LanServer.step]
    split
    next at_c => exact old.set at_c (fun n holds => by rw [received_holds] at holds; cases holds)
    next => exact old
  | lookup c =>
    simp only [LanServer.step]
    split
    next verify at_c => exact old.lookup at_c
    next => exact old
  | compare | confirm =>
    simp only [LanServer.step]
    split
    next verify pending at_c =>
      refine old.set at_c (fun n holds => ?_)
      split at holds
      · exact holds
      · cases holds
    next => exact old
  | call c =>
    simp only [LanServer.step]
    split
    next verify pending at_c => exact old.call at_c
    next => exact old

theorem single_run (events : List Event) : Single (final (step unmarshal) start events) :=
  final_kept (I := Single) (fun _ e single => Single.step unmarshal single e) single_start events

def Presented (events : List Event) (n c : Nat) : Prop :=
  ∃ before after verify pending, events = before ++ after ∧
    (final (step unmarshal) start before).handlers[c]? = some (.reading verify) ∧
    (final (step unmarshal) start before).conns verify.instanceID = some pending ∧
    pending.serial = n ∧ pending.challenge = verify.challenge

def Found (events : List Event) (c : Nat) : Handler → Prop
  | .looked verify pending => ∃ before after, events = before ++ after ∧
    (final (step unmarshal) start before).handlers[c]? = some (.reading verify) ∧
    (final (step unmarshal) start before).conns verify.instanceID = some pending
  | .equal _ pending | .confirmed _ pending => Presented unmarshal events pending.serial c
  | _ => True

theorem Presented.append {n} (presented : Presented unmarshal events n c) (more : List Event) :
    Presented unmarshal (events ++ more) n c := by
  obtain ⟨before,after,verify,pending,rfl,rest⟩ := presented
  exact ⟨before,after ++ more,verify,pending,append_assoc before after more,rest⟩

theorem Found.append {h} (found : Found unmarshal events c h) (more : List Event) :
    Found unmarshal (events ++ more) c h := by
  cases h with
  | looked verify pending =>
    obtain ⟨before,after,rfl,rest⟩ := found
    exact ⟨before,after ++ more,append_assoc before after more,rest⟩
  | equal | confirmed => exact Presented.append unmarshal found more
  | accepted => trivial
  | reading verify => trivial
  | finished reason => trivial

structure Backed (events : List Event) (s : State) : Prop where
  handlers : ∀ (c : Nat) h, s.handlers[c]? = some h → Found unmarshal events c h
  ran : ∀ n c, (n,c) ∈ s.ran → Presented unmarshal events n c

theorem Backed.append (old : Backed unmarshal events s) (more : List Event) : Backed unmarshal (events ++ more) s :=
  ⟨fun c h at_c => Found.append unmarshal (old.handlers c h at_c) more,
    fun n c mem => Presented.append unmarshal (old.ran n c mem) more⟩

theorem Backed.set (old : Backed unmarshal events s) {after : Handler} (found : Found unmarshal events c after) :
    Backed unmarshal events (s.set c after) := by
  refine ⟨?_,old.ran⟩
  intro d h at_d
  rcases getElem?_set_cases at_d with ⟨rfl,rfl⟩ | ⟨-,was⟩
  · exact found
  · exact old.handlers d h was

theorem received_found (events : List Event) (c : Nat) (stream : Option Bytes) :
    Found unmarshal events c (received unmarshal stream) := by
  unfold received
  split
  next => trivial
  next =>
    split
    next => trivial
    next => split <;> trivial

theorem Backed.accept (old : Backed unmarshal events s) :
    Backed unmarshal events { s with handlers := s.handlers ++ [.accepted] } := by
  refine ⟨?_,old.ran⟩
  intro c h at_c
  rcases getElem?_snoc_cases at_c with before | ⟨-,rfl⟩
  · exact old.handlers c h before
  · trivial

theorem Backed.lookup (old : Backed unmarshal events s) (found : ∀ pending, s.conns verify.instanceID = some pending →
      Found unmarshal events c (.looked verify pending)) : Backed unmarshal events (s.lookup c verify) := by
  unfold State.lookup
  split
  next => exact old.set unmarshal trivial
  next pending there =>
    have looked := old.set unmarshal (found pending there)
    exact ⟨looked.handlers,looked.ran⟩

theorem Backed.call (old : Backed unmarshal events s) (at_c : s.handlers[c]? = some (.confirmed verify pending)) :
    Backed unmarshal events (s.call c pending) := by
  have done : Backed unmarshal events (s.set c (.finished none)) := old.set unmarshal trivial
  unfold State.call
  split
  next =>
    refine ⟨done.handlers,?_⟩
    intro n d mem
    rcases mem_snoc.mp mem with earlier | last
    · exact old.ran n d earlier
    · obtain ⟨rfl,rfl⟩ := Prod.mk.inj last
      exact old.handlers d _ at_c
  next => exact done

theorem Backed.step (old : Backed unmarshal events (final (step unmarshal) start events)) (e : Event) :
    Backed unmarshal (events ++ [e]) (LanServer.step unmarshal (final (LanServer.step unmarshal) start events) e).1 := by
  have kept := Backed.append unmarshal old [e]
  generalize now : final (LanServer.step unmarshal) start events = s at old kept ⊢
  cases e with
  | registerPending id challenge onVerify =>
    simp only [LanServer.step,State.registerPending]
    split
    · exact kept
    · exact ⟨kept.handlers,kept.ran⟩
  | unregisterPending id => exact ⟨kept.handlers,kept.ran⟩
  | accept => exact kept.accept unmarshal
  | read c stream =>
    simp only [LanServer.step]
    split
    next at_c => exact kept.set unmarshal (received_found unmarshal _ c stream)
    next => exact kept
  | lookup c =>
    simp only [LanServer.step]
    split
    next verify at_c =>
      refine kept.lookup unmarshal ?_
      intro pending there
      exact ⟨events,[.lookup c],rfl,by rw [now]; exact at_c,by rw [now]; exact there⟩
    next => exact kept
  | compare c =>
    simp only [LanServer.step]
    split
    next verify pending at_c =>
      split
      next same =>
        obtain ⟨before,after,split,read,there⟩ := kept.handlers c _ at_c
        exact kept.set unmarshal ⟨before,after,verify,pending,split,read,there,rfl,challengeEqual_iff.mp same⟩
      next => exact kept.set unmarshal trivial
    next => exact kept
  | confirm c written =>
    simp only [LanServer.step]
    split
    next verify pending at_c =>
      split
      next =>
        have presented : Presented unmarshal (events ++ [.confirm c written]) pending.serial c :=
          kept.handlers c _ at_c
        exact kept.set unmarshal presented
      next => exact kept.set unmarshal trivial
    next => exact kept
  | call c =>
    simp only [LanServer.step]
    split
    next verify pending at_c => exact kept.call unmarshal at_c
    next => exact kept

theorem backed_run (events : List Event) : Backed unmarshal events (final (step unmarshal) start events) := by
  induction events using reverseRecOn with
  | nil =>
    refine ⟨?_,?_⟩
    · intro c h none
      cases none
    · intro n c none
      cases none
  | append_singleton events e ih =>
    rw [final_append]
    exact Backed.step unmarshal ih e

theorem registered_step (s : State) (e : Event) : s.registered <+: (step unmarshal s e).1.registered := by
  cases e with
  | registerPending id challenge onVerify =>
    simp only [step,State.registerPending]
    split
    · exact prefix_rfl
    · exact prefix_append _ _
  | unregisterPending | accept => exact prefix_rfl
  | lookup | call =>
    simp only [step,State.lookup,State.call]
    split
    · split <;> exact prefix_rfl
    · exact prefix_rfl
  | read c stream | compare c | confirm c written =>
    simp only [step]
    split <;> exact prefix_rfl

theorem registered_final (s : State) (events : List Event) {n : Nat} {entry : Bytes × Bytes}
    (there : s.registered[n]? = some entry) : (final (step unmarshal) s events).registered[n]? = some entry := by
  refine final_kept (I := fun t : State => t.registered[n]? = some entry) ?_ there events
  intro t e found
  obtain ⟨more,longer⟩ := registered_step unmarshal t e
  rw [← longer]
  exact getElem?_append_some found

/-- The callback of an entry runs at most once, and only for a connection whose message had its ID and challenge when
    it was in the map. -/
theorem callback_runs_once_for_its_message (events : List Event) :
    ((final (step unmarshal) start events).ran.map Prod.fst).Nodup ∧
      ∀ n c, (n,c) ∈ (final (step unmarshal) start events).ran →
        ∃ before after verify pending, events = before ++ after ∧
          (final (step unmarshal) start before).handlers[c]? = some (.reading verify) ∧
          (final (step unmarshal) start before).conns verify.instanceID = some pending ∧ pending.serial = n ∧
          (final (step unmarshal) start events).registered[n]? = some (verify.instanceID,verify.challenge) := by
  constructor
  · rw [nodup_iff_count_le_one]
    intro n
    have once := (single_run unmarshal events).once n
    simp only [State.places] at once
    omega
  · intro n c mem
    obtain ⟨before,after,verify,pending,rfl,read,there,rfl,same⟩ := (backed_run unmarshal events).ran n c mem
    refine ⟨before,after,verify,pending,rfl,read,there,rfl,?_⟩
    have known := (single_run unmarshal before).known _ _ there
    rw [same] at known
    rw [final_append]
    exact registered_final unmarshal _ after known

end

def plainVerify (data : Bytes) : Option LanVerify := some ⟨data,[1]⟩

def verifiedRun : List Event :=
  [.registerPending [1] [7] (some 0),.accept,.read 0 (some (frame [7])),.lookup 0,.compare 0,.confirm 0 true,.call 0]

theorem verified_run_calls_back : (final (step plainVerify) start verifiedRun).ran = [(0,0)] ∧
      ∃ before after verify pending, verifiedRun = before ++ after ∧
        (final (step plainVerify) start before).handlers[0]? = some (.reading verify) ∧
        (final (step plainVerify) start before).conns verify.instanceID = some pending ∧ pending.serial = 0 ∧
        (final (step plainVerify) start verifiedRun).registered[0]? = some (verify.instanceID,verify.challenge) :=
  ⟨by decide,(callback_runs_once_for_its_message plainVerify verifiedRun).2 0 0 (by decide)⟩

end Pigeon.LanServer
