import Pigeon.Octets
import Pigeon.Sequence

/-!
The hub of the relay (`session.go`). A backend registers an instance, further connections of
it park there, and a client is matched with one of them. The number of an instance stands for
its pointer. An event is one step of one handler; a listen changes hands in one step of both
sides (`handOver`).
-/
namespace Pigeon.RelayHub
open Octets Runs Sequence List Function

/-- `instance`, with whether its control connection has ended and whether it was cancelled. -/
structure Instance where
  id : Bytes
  (controlDone cancelled : Bool)
deriving DecidableEq

def Instance.live (x : Instance) : Bool := !x.controlDone && !x.cancelled

inductive WaitError
  | unregistered
  | context
deriving DecidableEq

/-- A call of `parkListen`: before it, in its `select`, and what it returned. -/
inductive Parking
  | found
  | waiting
  | returned (err : Option WaitError)

structure Listen where
  inst : Nat
  parking : Parking

/-- A call of `matchListen`. -/
inductive Matching
  | found
  | waiting
  | matched (listen : Nat)
  | failed (err : WaitError)

structure Client where
  inst : Nat
  matching : Matching

structure Hub where
  made : List Instance
  instances : Bytes → Option Nat
  /-- Calls of `unregister` that have removed their instance and cancel it next. -/
  cancelling : List Nat
  listens : List Listen
  clients : List Client

def newHub : Hub := ⟨[],fun _ => none,[],[],[]⟩

inductive Event
  | newInstance (id : Bytes)
  | register (inst : Nat)
  | unregister (inst : Nat)
  | cancel (inst : Nat)
  | controlEnds (inst : Nat)
  /-- A listen or a client looks an ID up. -/
  | listen (id : Bytes)
  | connect (id : Bytes)
  | parkListen (listen : Nat)
  | matchListen (client : Nat)
  | handOver (listen client : Nat)
  | parkEnds (listen : Nat) (err : WaitError)
  | matchEnds (client : Nat) (err : WaitError)
deriving DecidableEq

namespace Hub

def taken (h : Hub) (id : Bytes) : Bool :=
  match h.instances id with
  | none => false
  | some cur => (h.made[cur]?).any Instance.live

/-- `hub.register`. -/
def register (h : Hub) (inst : Nat) : Hub × Option Bool :=
  match h.made[inst]? with
  | none => (h,none)
  | some x =>
    if h.taken x.id then (h,some false)
    else ({ h with instances := update h.instances x.id (some inst) },some true)

/-- `hub.unregister`. -/
def unregister (h : Hub) (inst : Nat) : Hub :=
  match h.made[inst]? with
  | none => h
  | some x =>
    if h.instances x.id = some inst then
      { h with instances := update h.instances x.id none, cancelling := inst :: h.cancelling }
    else h

def cancel (h : Hub) (inst : Nat) : Hub :=
  if inst ∈ h.cancelling then
    { h with
      cancelling := h.cancelling.erase inst
      made := h.made.modify inst (fun x => { x with cancelled := true }) }
  else h

def controlEnds (h : Hub) (inst : Nat) : Hub :=
  { h with made := h.made.modify inst (fun x => { x with controlDone := true }) }

/-- Both sides of the channel: the value goes from the `select` of `parkListen` to that of `matchListen`. -/
def handOver (h : Hub) (listen client : Nat) : Hub :=
  match h.listens[listen]?, h.clients[client]? with
  | some ⟨inst,.waiting⟩, some ⟨inst',.waiting⟩ =>
    if inst = inst' then
      { h with
        listens := h.listens.set listen ⟨inst,.returned none⟩
        clients := h.clients.set client ⟨inst,.matched listen⟩ }
    else h
  | _, _ => h

/-- Whether a `select` at the instance can be left with the error. -/
def canEnd (h : Hub) (inst : Nat) : WaitError → Bool
  | .unregistered => (h.made[inst]?).all (!·.live)
  | .context => true

def parkEnds (h : Hub) (listen : Nat) (err : WaitError) : Hub :=
  match h.listens[listen]? with
  | some ⟨inst,.waiting⟩ =>
    if h.canEnd inst err then { h with listens := h.listens.set listen ⟨inst,.returned (some err)⟩ } else h
  | _ => h

def matchEnds (h : Hub) (client : Nat) (err : WaitError) : Hub :=
  match h.clients[client]? with
  | some ⟨inst,.waiting⟩ =>
    if h.canEnd inst err then { h with clients := h.clients.set client ⟨inst,.failed err⟩ } else h
  | _ => h

def listen (h : Hub) (id : Bytes) : Hub :=
  match h.instances id with
  | none => h
  | some inst => { h with listens := h.listens ++ [⟨inst,.found⟩] }

/-- `hub.get` for a client. -/
def connect (h : Hub) (id : Bytes) : Hub :=
  match h.instances id with
  | none => h
  | some inst => { h with clients := h.clients ++ [⟨inst,.found⟩] }

/-- `instance.parkListen`. -/
def parkListen (h : Hub) (listen : Nat) : Hub :=
  match h.listens[listen]? with
  | some ⟨inst,.found⟩ => { h with listens := h.listens.set listen ⟨inst,.waiting⟩ }
  | _ => h

/-- `instance.matchListen`. -/
def matchListen (h : Hub) (client : Nat) : Hub :=
  match h.clients[client]? with
  | some ⟨inst,.found⟩ => { h with clients := h.clients.set client ⟨inst,.waiting⟩ }
  | _ => h

end Hub

def step (h : Hub) : Event → Hub × Option Bool
  | .newInstance id => ({ h with made := h.made ++ [⟨id,false,false⟩] },none)
  | .register inst => h.register inst
  | .unregister inst => (h.unregister inst,none)
  | .cancel inst => (h.cancel inst,none)
  | .controlEnds inst => (h.controlEnds inst,none)
  | .listen id => (h.listen id,none)
  | .connect id => (h.connect id,none)
  | .parkListen listen => (h.parkListen listen,none)
  | .matchListen client => (h.matchListen client,none)
  | .handOver listen client => (h.handOver listen client,none)
  | .parkEnds listen err => (h.parkEnds listen err,none)
  | .matchEnds client err => (h.matchEnds client err,none)

def Event.onInstances : Event → Bool
  | .newInstance _ | .register _ | .unregister _ | .cancel _ | .controlEnds _ => true
  | _ => false

theorem step_instances (h : Hub) {e} (other : e.onInstances = false) :
    (step h e).1.made = h.made ∧ (step h e).1.instances = h.instances ∧ (step h e).1.cancelling = h.cancelling := by
  cases e with
  | newInstance | register | unregister | cancel | controlEnds => cases other
  | listen id => rw [step,Hub.listen]; split <;> exact ⟨rfl,rfl,rfl⟩
  | connect id => rw [step,Hub.connect]; split <;> exact ⟨rfl,rfl,rfl⟩
  | parkListen p => rw [step,Hub.parkListen]; split <;> exact ⟨rfl,rfl,rfl⟩
  | matchListen c => rw [step,Hub.matchListen]; split <;> exact ⟨rfl,rfl,rfl⟩
  | handOver p c =>
    rw [step,Hub.handOver]
    split
    · split <;> exact ⟨rfl,rfl,rfl⟩
    · exact ⟨rfl,rfl,rfl⟩
  | parkEnds p err =>
    rw [step,Hub.parkEnds]
    split
    · split <;> exact ⟨rfl,rfl,rfl⟩
    · exact ⟨rfl,rfl,rfl⟩
  | matchEnds c err =>
    rw [step,Hub.matchEnds]
    split
    · split <;> exact ⟨rfl,rfl,rfl⟩
    · exact ⟨rfl,rfl,rfl⟩

theorem step_meetings (h : Hub) {e} (about : e.onInstances) :
    (step h e).1.listens = h.listens ∧ (step h e).1.clients = h.clients := by
  cases e with
  | newInstance | controlEnds => exact ⟨rfl,rfl⟩
  | register i =>
    rw [step,Hub.register]
    split
    · exact ⟨rfl,rfl⟩
    · split <;> exact ⟨rfl,rfl⟩
  | unregister i =>
    rw [step,Hub.unregister]
    split
    · exact ⟨rfl,rfl⟩
    · split <;> exact ⟨rfl,rfl⟩
  | cancel i => rw [step,Hub.cancel]; split <;> exact ⟨rfl,rfl⟩
  | listen | connect | parkListen | matchListen | handOver | parkEnds | matchEnds => cases about

def Owns (h : Hub) (i : Nat) : Prop := ∃ x, h.made[i]? = some x ∧ h.instances x.id = some i

def Live (h : Hub) (i : Nat) : Prop := ∃ x, h.made[i]? = some x ∧ x.live = true

/-- A live instance that owns its ID, and no `unregister` of which is under way. -/
structure Holds (i : Nat) (h : Hub) : Prop where
  owns : Owns h i
  live : Live h i
  staying : i ∉ h.cancelling

theorem holds_of_same {i h h'} (holds : Holds i h) (made : h'.made[i]? = h.made[i]?)
    (instances : ∀ x, h.made[i]? = some x → h'.instances x.id = h.instances x.id)
    (staying : i ∈ h'.cancelling → i ∈ h.cancelling) : Holds i h' := by
  obtain ⟨⟨x,found,owned⟩,⟨y,foundY,live⟩,notCancelling⟩ := holds
  refine ⟨⟨x,?_,?_⟩,⟨y,?_,live⟩,fun mem => notCancelling (staying mem)⟩
  · rw [made]
    exact found
  · rw [instances x found]
    exact owned
  · rw [made]
    exact foundY

theorem taken_iff {h id} : h.taken id ↔ ∃ i, h.instances id = some i ∧ Live h i := by
  rw [Hub.taken]
  cases slot : h.instances id with
  | none => simp
  | some cur =>
    cases found : h.made[cur]? with
    | none | some => simp [Live,found]

section
variable {i : Nat} {h : Hub} (holds : Holds i h)
include holds

theorem register_refused {j x y} (foundI : h.made[i]? = some x) (foundJ : h.made[j]? = some y)
    (same : y.id = x.id) : h.register j = (h,some false) := by
  obtain ⟨⟨z,foundZ,owned⟩,live,-⟩ := holds
  rw [foundI] at foundZ
  cases foundZ
  have taken : h.taken y.id = true := taken_iff.mpr ⟨i,by rw [same]; exact owned,live⟩
  simp [Hub.register,foundJ,taken]

theorem holds_register (j : Nat) : Holds i (h.register j).1 := by
  obtain ⟨x,foundI,-⟩ := holds.owns
  cases foundJ : h.made[j]? with
  | none =>
    rw [Hub.register,foundJ]
    exact holds
  | some y =>
    by_cases same : y.id = x.id
    · rw [register_refused holds foundI foundJ same]
      exact holds
    · simp only [Hub.register,foundJ]
      split
      · exact holds
      · refine holds_of_same holds rfl ?_ (fun mem => mem)
        intro z foundZ
        rw [foundI] at foundZ
        cases foundZ
        exact update_of_ne (Ne.symm same) _ _

theorem holds_unregister {j} (other : j ≠ i) : Holds i (h.unregister j) := by
  obtain ⟨x,foundI,owned⟩ := holds.owns
  rw [Hub.unregister]
  split
  · exact holds
  next y foundJ =>
    split
    next owns =>
      have differ : x.id ≠ y.id := by
        intro same
        rw [← same,owned] at owns
        exact other (Option.some.inj owns).symm
      refine holds_of_same holds rfl ?_ ?_
      · intro z foundZ
        rw [foundI] at foundZ
        cases foundZ
        exact update_of_ne differ _ _
      · intro mem
        rcases mem_cons.mp mem with rfl | mem
        · exact absurd rfl other
        · exact mem
    · exact holds

theorem holds_cancel (j : Nat) : Holds i (h.cancel j) := by
  rw [Hub.cancel]
  split
  next mem =>
    have other : j ≠ i := by
      rintro rfl
      exact holds.staying mem
    exact holds_of_same holds (getElem?_modify_ne _ _ other) (fun _ _ => rfl) mem_of_mem_erase
  · exact holds

theorem holds_controlEnds {j} (other : j ≠ i) : Holds i (h.controlEnds j) :=
  holds_of_same holds (getElem?_modify_ne _ _ other) (fun _ _ => rfl) (fun mem => mem)

theorem holds_step {e} (foreign : e ≠ .unregister i ∧ e ≠ .controlEnds i) : Holds i (step h e).1 := by
  by_cases other : e.onInstances = false
  · obtain ⟨made,instances,cancelling⟩ := step_instances h other
    exact holds_of_same holds (by rw [made]) (fun x _ => by rw [instances]) (fun mem => cancelling ▸ mem)
  cases e with
  | newInstance id =>
    obtain ⟨x,found,-⟩ := holds.owns
    refine holds_of_same holds ?_ (fun _ _ => rfl) (fun mem => mem)
    rw [found]
    exact getElem?_append_some found
  | register j => exact holds_register holds j
  | unregister j => exact holds_unregister holds (fun same => foreign.1 (congrArg _ same))
  | cancel j => exact holds_cancel holds j
  | controlEnds j => exact holds_controlEnds holds (fun same => foreign.2 (congrArg _ same))
  | listen | connect | parkListen | matchListen | handOver | parkEnds | matchEnds => exact absurd rfl other

theorem holds_final {events} (foreign : ∀ e ∈ events, e ≠ .unregister i ∧ e ≠ .controlEnds i) :
    Holds i (final step h events) := by
  have along : Along step (fun _ e => e ≠ .unregister i ∧ e ≠ .controlEnds i) h events := along_of_forall foreign
  exact final_invariant (I := Holds i) (fun _ _ before apart => holds_step before apart) holds along

end

/-- A matched client has a listen of its instance whose `parkListen` returned nil; a listen whose call returned nil
    has one client. -/
structure Matched (h : Hub) : Prop where
  taken : ∀ (c : Nat) (x : Client) (p : Nat), h.clients[c]? = some x → x.matching = .matched p →
    ∃ l : Listen, h.listens[p]? = some l ∧ l.inst = x.inst ∧ l.parking = .returned none
  given : ∀ (p : Nat) (l : Listen), h.listens[p]? = some l → l.parking = .returned none →
    ∃ (c : Nat) (x : Client), h.clients[c]? = some x ∧ x.matching = .matched p
  once : ∀ (c c' : Nat) (x x' : Client) (p : Nat), h.clients[c]? = some x → h.clients[c']? = some x' → x.matching = .matched p →
    x'.matching = .matched p → c = c'

section
variable {h : Hub}

section
variable (kept : Matched h)
include kept

theorem matched_listen {p old new} (found : h.listens[p]? = some old) (before : old.parking ≠ .returned none)
    (after : new.parking ≠ .returned none) : Matched { h with listens := h.listens.set p new } where
  taken c x q at_c matched := by
    obtain ⟨l,at_q,same,done⟩ := kept.taken c x q at_c matched
    refine ⟨l,?_,same,done⟩
    have other : p ≠ q := by
      rintro rfl
      rw [found] at at_q
      cases at_q
      exact before done
    rw [getElem?_set_ne other]
    exact at_q
  given q l at_q done := by
    rcases getElem?_set_cases at_q with ⟨-,rfl⟩ | ⟨-,old⟩
    · exact absurd done after
    · exact kept.given q l old done
  once := kept.once

theorem matched_client {c old new} (found : h.clients[c]? = some old) (before : ∀ p, old.matching ≠ .matched p)
    (after : ∀ p, new.matching ≠ .matched p) : Matched { h with clients := h.clients.set c new } where
  taken d x p at_d matched := by
    rcases getElem?_set_cases at_d with ⟨-,rfl⟩ | ⟨-,old⟩
    · exact absurd matched (after p)
    · exact kept.taken d x p old matched
  given p l at_p done := by
    obtain ⟨d,x,at_d,matched⟩ := kept.given p l at_p done
    refine ⟨d,x,?_,matched⟩
    have other : c ≠ d := by
      rintro rfl
      rw [found] at at_d
      cases at_d
      exact before p matched
    rw [getElem?_set_ne other]
    exact at_d
  once d d' x x' p at_d at_d' matched matched' := by
    rcases getElem?_set_cases at_d with ⟨-,rfl⟩ | ⟨-,old⟩
    · exact absurd matched (after p)
    · rcases getElem?_set_cases at_d' with ⟨-,rfl⟩ | ⟨-,old'⟩
      · exact absurd matched' (after p)
      · exact kept.once d d' x x' p old old' matched matched'

theorem matched_handOver {p c inst} (foundP : h.listens[p]? = some ⟨inst,.waiting⟩)
    (foundC : h.clients[c]? = some ⟨inst,.waiting⟩) : Matched { h with
      listens := h.listens.set p ⟨inst,.returned none⟩
      clients := h.clients.set c ⟨inst,.matched p⟩ } := by
  -- Nobody has the listen yet, since its call has not returned.
  have free : ∀ (d : Nat) (x : Client), h.clients[d]? = some x → x.matching ≠ .matched p := by
    intro d x at_d matched
    obtain ⟨l,at_p,-,done⟩ := kept.taken d x p at_d matched
    rw [foundP] at at_p
    cases at_p
    cases done
  refine ⟨?_,?_,?_⟩
  · intro d x q at_d matched
    rcases getElem?_set_cases at_d with ⟨-,rfl⟩ | ⟨-,old⟩
    · cases matched
      exact ⟨_,getElem?_set_found foundP,rfl,rfl⟩
    · obtain ⟨l,at_q,same,done⟩ := kept.taken d x q old matched
      refine ⟨l,?_,same,done⟩
      have other : p ≠ q := by
        rintro rfl
        exact free d x old matched
      rw [getElem?_set_ne other]
      exact at_q
  · intro q l at_q done
    rcases getElem?_set_cases at_q with ⟨rfl,-⟩ | ⟨-,old⟩
    · exact ⟨c,_,getElem?_set_found foundC,rfl⟩
    · obtain ⟨d,x,at_d,matched⟩ := kept.given q l old done
      refine ⟨d,x,?_,matched⟩
      have other : c ≠ d := by
        rintro rfl
        rw [foundC] at at_d
        cases at_d
        cases matched
      rw [getElem?_set_ne other]
      exact at_d
  · intro d d' x x' q at_d at_d' matched matched'
    rcases getElem?_set_cases at_d with ⟨rfl,rfl⟩ | ⟨-,old⟩
    · rcases getElem?_set_cases at_d' with ⟨rfl,-⟩ | ⟨-,old'⟩
      · rfl
      · cases matched
        exact absurd matched' (free d' x' old')
    · rcases getElem?_set_cases at_d' with ⟨rfl,rfl⟩ | ⟨-,old'⟩
      · cases matched'
        exact absurd matched (free d x old)
      · exact kept.once d d' x x' q old old' matched matched'

theorem matched_listening (inst : Nat) : Matched { h with listens := h.listens ++ [⟨inst,.found⟩] } where
  taken c x p at_c matched := by
    obtain ⟨l,at_p,same,done⟩ := kept.taken c x p at_c matched
    exact ⟨l,getElem?_append_some at_p,same,done⟩
  given p l at_p done := by
    rcases getElem?_snoc_cases at_p with old | ⟨-,rfl⟩
    · exact kept.given p l old done
    · cases done
  once := kept.once

theorem matched_connecting (inst : Nat) : Matched { h with clients := h.clients ++ [⟨inst,.found⟩] } where
  taken c x p at_c matched := by
    rcases getElem?_snoc_cases at_c with old | ⟨-,rfl⟩
    · exact kept.taken c x p old matched
    · cases matched
  given p l at_p done := by
    obtain ⟨c,x,at_c,matched⟩ := kept.given p l at_p done
    exact ⟨c,x,getElem?_append_some at_c,matched⟩
  once c c' x x' p at_c at_c' matched matched' := by
    rcases getElem?_snoc_cases at_c with old | ⟨-,rfl⟩
    · rcases getElem?_snoc_cases at_c' with old' | ⟨-,rfl⟩
      · exact kept.once c c' x x' p old old' matched matched'
      · cases matched'
    · cases matched

theorem matched_step (e : Event) : Matched (step h e).1 := by
  by_cases about : e.onInstances = true
  · obtain ⟨listens,clients⟩ := step_meetings h about
    exact ⟨by rw [listens,clients]; exact kept.taken,by rw [listens,clients]; exact kept.given,
      by rw [clients]; exact kept.once⟩
  cases e with
  | newInstance | register | unregister | cancel | controlEnds => exact absurd rfl about
  | listen id =>
    rw [step,Hub.listen]
    split
    · exact kept
    next inst _ => exact matched_listening kept inst
  | connect id =>
    rw [step,Hub.connect]
    split
    · exact kept
    next inst _ => exact matched_connecting kept inst
  | parkListen p =>
    rw [step,Hub.parkListen]
    split
    next found => exact matched_listen kept found (by simp) (by simp)
    next => exact kept
  | matchListen c =>
    rw [step,Hub.matchListen]
    split
    next found => exact matched_client kept found (by simp) (by simp)
    next => exact kept
  | handOver p c =>
    rw [step,Hub.handOver]
    split
    next inst inst' foundP foundC =>
      split
      next same =>
        subst same
        exact matched_handOver kept foundP foundC
      next => exact kept
    next => exact kept
  | parkEnds p err =>
    rw [step,Hub.parkEnds]
    split
    next found =>
      split
      · exact matched_listen kept found (by simp) (by simp)
      · exact kept
    next => exact kept
  | matchEnds c err =>
    rw [step,Hub.matchEnds]
    split
    next found =>
      split
      · exact matched_client kept found (by simp) (by simp)
      · exact kept
    next => exact kept

end

end

theorem matched_final (events : List Event) : Matched (final step newHub events) := by
  have start : Matched newHub := ⟨by simp [newHub],by simp [newHub],by simp [newHub]⟩
  exact final_kept (I := Matched) (fun _ e kept => matched_step kept e) start events

def MatchedTo (h : Hub) (c p : Nat) : Prop := ∃ x, h.clients[c]? = some x ∧ x.matching = .matched p

def ReturnedNil (h : Hub) (p : Nat) : Prop := ∃ l, h.listens[p]? = some l ∧ l.parking = .returned none

theorem register_iff {h j x} (found : h.made[j]? = some x) :
    ((h.register j).2 = some true ↔ ∀ i, h.instances x.id = some i → ¬ Live h i) ∧
      ((h.register j).2 = some true → Owns (h.register j).1 j) := by
  by_cases taken : h.taken x.id = true
  · obtain ⟨i,slot,live⟩ := taken_iff.mp taken
    simp only [Hub.register,found,taken,if_true]
    refine ⟨⟨by simp,fun none => absurd live (none i slot)⟩,by simp⟩
  · simp only [Hub.register,found,taken]
    refine ⟨⟨?_,fun _ => rfl⟩,fun _ => ⟨x,found,update_self ..⟩⟩
    intro _ i slot live
    exact taken (taken_iff.mpr ⟨i,slot,live⟩)

def run (events : List Event) : Hub := final step newHub events

/-- An ID has one owner, which stays it while live; a listen goes to one client, of its own instance, and its
    `parkListen` returns nil just then. -/
theorem hub_ownership (events more : List Event) :
    (∀ (i j : Nat) (x y : Instance), (run events).made[i]? = some x → (run events).made[j]? = some y → x.id = y.id →
      Owns (run events) i → Owns (run events) j → i = j) ∧
    (∀ (j : Nat) (x : Instance), (run events).made[j]? = some x → ((step (run events) (.register j)).2 = some true ↔
        ∀ i, (run events).instances x.id = some i → ¬ Live (run events) i) ∧
      ((step (run events) (.register j)).2 = some true → Owns (step (run events) (.register j)).1 j)) ∧
    (∀ i, Owns (run events) i → Live (run events) i → i ∉ (run events).cancelling →
      (∀ e ∈ more, e ≠ .unregister i ∧ e ≠ .controlEnds i) →
        Owns (run (events ++ more)) i ∧ Live (run (events ++ more)) i) ∧
    (∀ c c' p, MatchedTo (run events) c p → MatchedTo (run events) c' p → c = c') ∧
    (∀ (c p : Nat) (x : Client), (run events).clients[c]? = some x → x.matching = .matched p →
      ∃ l : Listen, (run events).listens[p]? = some l ∧ l.inst = x.inst) ∧
    ∀ p, ReturnedNil (run events) p ↔ ∃ c, MatchedTo (run events) c p := by
  have matched : Matched (run events) := matched_final events
  have later : run (events ++ more) = final step (run events) more := final_append step newHub events more
  rw [later]
  generalize run events = h at matched
  refine ⟨?_,?_,?_,?_,?_,?_⟩
  · rintro i j x y foundX foundY same ⟨x',foundX',ownsI⟩ ⟨y',foundY',ownsJ⟩
    rw [foundX] at foundX'
    rw [foundY] at foundY'
    cases foundX'
    cases foundY'
    rw [same,ownsJ] at ownsI
    exact (Option.some.inj ownsI).symm
  · intro j x found
    exact register_iff found
  · intro i owns live staying foreign
    have holds := holds_final ⟨owns,live,staying⟩ foreign
    exact ⟨holds.owns,holds.live⟩
  · rintro c c' p ⟨x,found,to_p⟩ ⟨x',found',to_p'⟩
    exact matched.once c c' x x' p found found' to_p to_p'
  · intro c p x found to_p
    obtain ⟨l,at_p,same,-⟩ := matched.taken c x p found to_p
    exact ⟨l,at_p,same⟩
  · intro p
    constructor
    · rintro ⟨l,at_p,done⟩
      obtain ⟨c,x,found,to_p⟩ := matched.given p l at_p done
      exact ⟨c,x,found,to_p⟩
    · rintro ⟨c,x,found,to_p⟩
      obtain ⟨l,at_p,-,done⟩ := matched.taken c x p found to_p
      exact ⟨l,at_p,done⟩

def oneClient : List Event :=
  [.newInstance [97],.register 0,.listen [97],.connect [97],.parkListen 0,.matchListen 0,.handOver 0 0]

def intruder : List Event := [.newInstance [97],.register 1,.unregister 1,.controlEnds 1]

theorem intruder_refused : ((run oneClient).made[0]?).any Instance.live = true ∧
      answers step (run oneClient) intruder = [none,some false,none,none] ∧
      Owns (run (oneClient ++ intruder)) 0 ∧ Live (run (oneClient ++ intruder)) 0 := by
  refine ⟨by decide,by decide +kernel,?_⟩
  exact (hub_ownership oneClient intruder).2.2.1 0 ⟨⟨[97],false,false⟩,by decide,by decide +kernel⟩
    ⟨⟨[97],false,false⟩,by decide,by decide +kernel⟩ (by decide +kernel) (by decide +kernel)

end Pigeon.RelayHub
