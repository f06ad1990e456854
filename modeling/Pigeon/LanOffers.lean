import Pigeon.LanServer

/-!
LAN offers of sessions (`lan_upgrade.go`) at one LAN server. `offerLAN` removes the entry of
its peer's ID whatever became of it, and `handleConn` takes an entry before it compares the
challenges. So an entry stays until its own end just when no wrong challenge and no other
session with that peer comes between (`pending_undisturbed_iff`).
-/
namespace Pigeon.LanOffers
open Octets Framing Runs Function
open LanServer (LanVerify PendingLAN Handler Event Single)

/-- How far the one `offerLAN` of a session has come. -/
inductive Offer
  | none
  | running
  | over
deriving DecidableEq

structure Host where
  server : LanServer.State
  offers : Nat → Offer

def start : Host := ⟨LanServer.start,fun _ => .none⟩

/-- `offerLAN` draws a challenge, or cannot, and later returns; a connection takes a step. -/
inductive Happening
  | offer (k : Nat) (challenge : Option Bytes)
  | ends (k : Nat)
  | connection (e : Event)
deriving DecidableEq

def byConnection : Event → Bool
  | .registerPending _ _ _ | .unregisterPending _ => false
  | _ => true

section
/- The peer of each session, and `json.Unmarshal`. -/
variable (peerID : Nat → Bytes) (unmarshal : Bytes → Option LanVerify)

/-- `offerLAN` up to its registration. -/
def Host.offer (h : Host) (k : Nat) (challenge : Option Bytes) : Host :=
  if h.offers k ≠ .none then h
  else
    match challenge with
    | .none => { h with offers := update h.offers k .over }
    | some challenge =>
      if peerID k = [] then { h with offers := update h.offers k .over }
      else
        { server := h.server.registerPending (peerID k) challenge (some k)
          offers := update h.offers k .running }

def Host.ends (h : Host) (k : Nat) : Host :=
  if h.offers k = .running then
    { server := h.server.unregisterPending (peerID k), offers := update h.offers k .over }
  else h

def step (h : Host) : Happening → Host × Unit
  | .offer k challenge => (h.offer peerID k challenge,())
  | .ends k => (h.ends peerID k,())
  | .connection e => (if byConnection e then { h with server := (LanServer.step unmarshal h.server e).1 } else h,())

def Entitled (h : Host) (id : Bytes) (pending : PendingLAN) : Happening → Prop
  | .offer k _ | .ends k => pending.onVerify = some k
  | .connection (.lookup c) => ∃ verify, h.server.handlers[c]? = some (.reading verify) ∧ verify.instanceID = id ∧
    verify.challenge = pending.challenge
  | .connection _ => False

/-- An entry stays until something that may take it does, and no connection, failing or not, adds one. -/
def Undisturbed (happenings : List Happening) : Prop :=
  (∀ before between after, happenings = before ++ between ++ after → ∀ id pending,
    (final (step peerID unmarshal) start before).server.conns id = some pending →
    (final (step peerID unmarshal) start (before ++ between)).server.conns id = some pending ∨
      ∃ first what last, between = first ++ what :: last ∧
        Entitled (final (step peerID unmarshal) start (before ++ first)) id pending what) ∧
  ∀ before e after, happenings = before ++ .connection e :: after → ∀ id pending,
    (final (step peerID unmarshal) start (before ++ [.connection e])).server.conns id = some pending →
    (final (step peerID unmarshal) start before).server.conns id = some pending

/-- No connection presents a registered ID with another challenge, and no session touches another's entry. -/
def Respectful (h : Host) : Happening → Prop
  | .offer k challenge => h.offers k = .none → challenge ≠ .none → peerID k ≠ [] →
    ∀ pending, h.server.conns (peerID k) = some pending → pending.onVerify = some k
  | .ends k => h.offers k = .running → ∀ pending, h.server.conns (peerID k) = some pending → pending.onVerify = some k
  | .connection (.lookup c) => ∀ verify, h.server.handlers[c]? = some (.reading verify) →
    ∀ pending, h.server.conns verify.instanceID = some pending → verify.challenge = pending.challenge
  | .connection _ => True

def Leaves (h : Host) (what : Happening) : Prop :=
  ∀ id pending, h.server.conns id = some pending →
    (step peerID unmarshal h what).1.server.conns id = some pending ∨ Entitled h id pending what

variable {h : Host}

theorem new_entry_ne (single : Single h.server) {id pending}
    (there : h.server.conns id = some pending) (challenge : Bytes) (k : Nat) :
    some (PendingLAN.mk h.server.registered.length challenge (some k)) ≠ some pending := by
  intro same
  have known := Sequence.lt_of_getElem? (single.known id pending there)
  rw [← Option.some.inj same] at known
  exact Nat.lt_irrefl _ known

theorem update_leaves_iff {α β : Type} [DecidableEq α] {f : α → Option β} {a new} {P : β → Prop}
    (differs : ∀ x, f a = some x → new ≠ some x) :
    (∀ b x, f b = some x → update f a new b = some x ∨ P x) ↔ ∀ x, f a = some x → P x := by
  constructor
  · intro leaves x there
    refine (leaves a x there).resolve_left ?_
    rw [update_self]
    exact differs x there
  · intro own b x there
    by_cases same : b = a
    · subst same
      exact Or.inr (own x there)
    · rw [update_of_ne same]
      exact Or.inl there

theorem leaves_offer_iff (single : Single h.server) (k : Nat) (challenge : Option Bytes) :
    Leaves peerID unmarshal h (.offer k challenge) ↔ Respectful peerID h (.offer k challenge) := by
  simp only [Leaves,Respectful,Entitled,step,Host.offer]
  by_cases idle : h.offers k = .none
  · cases challenge with
    | none => simp +contextual [idle]
    | some challenge =>
      by_cases named : peerID k = []
      · simp +contextual [idle,named]
      · simp only [idle,ne_eq,not_true_eq_false,if_false,named,LanServer.State.registerPending,reduceCtorEq,
          not_false_eq_true,forall_const]
        exact update_leaves_iff (fun pending there => new_entry_ne single there challenge k)
  · simp +contextual [idle]

theorem leaves_ends_iff (k : Nat) : Leaves peerID unmarshal h (.ends k) ↔ Respectful peerID h (.ends k) := by
  simp only [Leaves,Respectful,Entitled,step,Host.ends]
  by_cases running : h.offers k = .running
  · simp only [running,if_true,LanServer.State.unregisterPending,forall_const]
    exact update_leaves_iff (fun _ _ => nofun)
  · simp +contextual [running]

theorem leaves_lookup_iff (c : Nat) :
    Leaves peerID unmarshal h (.connection (.lookup c)) ↔ Respectful peerID h (.connection (.lookup c)) := by
  simp only [Leaves,Respectful,Entitled,step,byConnection,if_true,LanServer.step]
  constructor
  · intro leaves verify read pending there
    rcases leaves verify.instanceID pending there with kept | ⟨other,also,-,right⟩
    · rw [read] at kept
      simp [LanServer.State.lookup,there,LanServer.State.takeOut,LanServer.State.set] at kept
    · rw [read] at also
      obtain rfl : verify = other := by simpa using also
      exact right
  · intro right id pending there
    split
    next verify read =>
      unfold LanServer.State.lookup
      split
      next => exact Or.inl there
      next found lookup =>
        by_cases same : id = verify.instanceID
        · subst same
          exact Or.inr ⟨verify,read,rfl,right verify read pending there⟩
        · refine Or.inl ?_
          show update h.server.conns verify.instanceID none id = some pending
          rw [update_of_ne same]
          exact there
    next => exact Or.inl there

theorem conns_connection {e} (other : ∀ c, e ≠ .lookup c) :
    (step peerID unmarshal h (.connection e)).1.server.conns = h.server.conns := by
  cases e with
  | registerPending id challenge onVerify => rfl
  | unregisterPending id => rfl
  | lookup c => exact absurd rfl (other c)
  | accept => rfl
  | call c =>
    simp only [step,byConnection,if_true,LanServer.step]
    split
    next =>
      unfold LanServer.State.call
      split <;> rfl
    next => rfl
  | read c stream | compare c | confirm c written =>
    simp only [step,byConnection,if_true,LanServer.step]
    split <;> rfl

theorem connection_adds_nothing {e id pending}
    (there : (step peerID unmarshal h (.connection e)).1.server.conns id = some pending) :
    h.server.conns id = some pending := by
  by_cases lookup : ∃ c, e = .lookup c
  · obtain ⟨c,rfl⟩ := lookup
    simp only [step,byConnection,if_true,LanServer.step] at there
    split at there
    next verify read =>
      unfold LanServer.State.lookup at there
      split at there
      next => exact there
      next found lookup =>
        by_cases same : id = verify.instanceID
        · simp [same,LanServer.State.takeOut,LanServer.State.set] at there
        · simpa [same,LanServer.State.takeOut,LanServer.State.set] using there
    next => exact there
  · rwa [conns_connection peerID unmarshal (fun c same => lookup ⟨c,same⟩)] at there

theorem leaves_iff (single : Single h.server) (what : Happening) :
    Leaves peerID unmarshal h what ↔ Respectful peerID h what := by
  cases what with
  | offer k challenge => exact leaves_offer_iff peerID unmarshal single k challenge
  | ends k => exact leaves_ends_iff peerID unmarshal k
  | connection e =>
    by_cases lookup : ∃ c, e = .lookup c
    · obtain ⟨c,rfl⟩ := lookup
      exact leaves_lookup_iff peerID unmarshal c
    · have other (c : Nat) : e ≠ .lookup c := fun same => lookup ⟨c,same⟩
      have trivially : Respectful peerID h (.connection e) := by
        cases e <;> first | trivial | exact absurd rfl (other _)
      refine iff_of_true (fun id pending there => Or.inl ?_) trivially
      rwa [conns_connection peerID unmarshal other]

theorem single_step (single : Single h.server) (what : Happening) :
    Single (step peerID unmarshal h what).1.server := by
  cases what with
  | offer k challenge =>
    simp only [step,Host.offer]
    split
    · exact single
    · split
      · exact single
      · split
        · exact single
        · exact single.registerPending _ _ _
  | ends k =>
    simp only [step,Host.ends]
    split
    · exact single.unregisterPending _
    · exact single
  | connection e =>
    simp only [step]
    split
    · exact single.step unmarshal e
    · exact single

theorem single_final (happenings : List Happening) : Single (final (step peerID unmarshal) start happenings).server :=
  final_kept (I := fun h : Host => Single h.server) (fun _ what single => single_step peerID unmarshal single what)
    LanServer.single_start happenings

theorem along_leaves_iff (happenings : List Happening) :
    Along (step peerID unmarshal) (Leaves peerID unmarshal) start happenings ↔
      Along (step peerID unmarshal) (Respectful peerID) start happenings := by
  rw [along_iff_split,along_iff_split]
  refine forall_congr' (fun first => forall_congr' (fun what => forall_congr' (fun last => imp_congr_right ?_)))
  intro _
  exact leaves_iff peerID unmarshal (single_final peerID unmarshal first) what

theorem undisturbed_iff_leaves (happenings : List Happening) : Undisturbed peerID unmarshal happenings ↔
      Along (step peerID unmarshal) (Leaves peerID unmarshal) start happenings := by
  constructor
  · rintro ⟨undisturbed,-⟩
    rw [along_iff_split]
    intro first what last split id pending there
    rcases undisturbed first [what] last (by rw [split]; simp) id pending there with kept | ⟨none,e,rest,whole,taken⟩
    · rw [final_append] at kept
      exact Or.inl kept
    · obtain ⟨rfl,same,-⟩ : none = [] ∧ what = e ∧ rest = [] := by
        cases none with
        | nil => simpa using whole
        | cons a none => simp at whole
      subst same
      rw [List.append_nil] at taken
      exact Or.inr taken
  · intro along
    refine ⟨?_,?_⟩
    · intro before between after split id pending there
      subst split
      rw [along_append,along_append] at along
      have kept (h : Host) (what : Happening) (leaves : Leaves peerID unmarshal h what)
          (held : h.server.conns id = some pending) :
          (step peerID unmarshal h what).1.server.conns id = some pending ∨ Entitled h id pending what :=
        leaves id pending held
      have run := final_kept_or_taken (P := fun h : Host => h.server.conns id = some pending) kept along.1.2 there
      simpa only [final_append] using run
    · intro before e after _ id pending there
      rw [final_append] at there
      exact connection_adds_nothing peerID unmarshal there

/-- The entries of a run are undisturbed just when every step is respectful. -/
theorem pending_undisturbed_iff (happenings : List Happening) :
    Undisturbed peerID unmarshal happenings ↔ Along (step peerID unmarshal) (Respectful peerID) start happenings :=
  (undisturbed_iff_leaves peerID unmarshal happenings).trans (along_leaves_iff peerID unmarshal happenings)

end

def samePeer (_ : Nat) : Bytes := [1]

def probed : List Happening :=
  [.offer 0 (some [7]),.connection .accept,.connection (.read 0 (some (frame [9]))),.connection (.lookup 0),
    .connection (.compare 0)]

def crossed : List Happening := [.offer 0 (some [7]),.offer 1 (some [8]),.ends 0]

/-- A failed connection takes the entry away, and so does another session of the device. -/
theorem entries_taken_away : (final (step samePeer LanServer.plainVerify) start probed).server.conns [1] = none ∧
      (final (step samePeer LanServer.plainVerify) start probed).server.handlers =
        [.finished (some "bad challenge")] ∧
      ¬ Undisturbed samePeer LanServer.plainVerify probed ∧
      (final (step samePeer LanServer.plainVerify) start crossed).server.conns [1] = none ∧
      (final (step samePeer LanServer.plainVerify) start crossed).offers 1 = .running ∧
      ¬ Undisturbed samePeer LanServer.plainVerify crossed := by
  refine ⟨by decide,by decide,?_,by decide,by decide,?_⟩
  · rw [undisturbed_iff_leaves,along_leaves_iff,along_iff_split]
    intro each
    have same := each (probed.take 3) (.connection (.lookup 0)) (probed.drop 4) (by decide) ⟨[9],[1]⟩ (by decide)
      ⟨0,[7],some 0⟩ (by decide)
    exact absurd same (by decide)
  · rw [undisturbed_iff_leaves,along_leaves_iff,along_iff_split]
    intro each
    have own := each (crossed.take 1) (.offer 1 (some [8])) (crossed.drop 2) (by decide) (by decide) (by decide)
      (by decide) ⟨0,[7],some 0⟩ (by decide)
    exact absurd own (by decide)

end Pigeon.LanOffers
