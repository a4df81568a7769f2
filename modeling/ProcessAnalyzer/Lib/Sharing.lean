import Mathlib.Algebra.BigOperators.Group.List.Basic
import Mathlib.Algebra.Ring.Nat
import Mathlib.Data.List.Basic
import ProcessAnalyzer.Lib.Run

/-!
# `ProcessAnalyzer.Lib.Sharing`: peers that share a document

A protocol of peers on one broadcast channel. Every peer belongs to a group and has at most one
document. What a peer posts goes into the inboxes of all others, and an inbox is emptied in any
order. A peer that gets a document from outside posts it. A peer can ask for one, and every peer
of its group that has a document answers by posting it. A document with another signature than
one's own takes its place, and messages of other groups are ignored. Peers come and go.

A net is the list of its peers. The results are about all runs of `step`:

* `exec_loaded`: every document of a peer, or on its way, came from outside into the group.
* `exec_deliver_length`: deliveries alone come to an end. There is no storm of answers.
* `exec_served`: when peers only leave quiet groups, then in a quiet group either all peers that
  have asked have a document or nobody has.
* `exec_agrees`: when documents only come into quiet groups, and peers ask when no document is on
  its way, then without a document on its way all peers of a group that have one have the last
  one.
-/

set_option autoImplicit false

namespace ProcessAnalyzer.Lib.Sharing

/-- What is posted. -/
inductive Message (γ δ : Type) where
  | doc (group : γ) (d : δ)
  | request (group : γ)

/-- A peer with the messages that have not been delivered to it yet. -/
structure Peer (γ δ : Type) where
  group : γ
  doc : Option δ := none
  asked : Bool := false
  inbox : List (Message γ δ) := []

/-- What happens: a peer comes or goes, gets a document from outside, asks, asks if it has no
document, or takes a message out of its inbox. -/
inductive Action (γ δ : Type) where
  | enter (group : γ)
  | leave (i : ℕ)
  | load (i : ℕ) (d : δ)
  | ask (i : ℕ)
  | wake (i : ℕ)
  | deliver (i k : ℕ)

section Step
variable {γ δ κ : Type} [DecidableEq γ] [DecidableEq κ] (sig : δ → κ)

/-- A net in which one peer changes and posts something. -/
def place (i : ℕ) (p' : Peer γ δ) (out : Option (Message γ δ)) (net : List (Peer γ δ)) :
    List (Peer γ δ) :=
  net.mapIdx fun j p => if j = i then p' else { p with inbox := p.inbox ++ out.toList }

/-- What a peer makes of a message, and what it posts. -/
def receive (p : Peer γ δ) : Message γ δ → Peer γ δ × Option (Message γ δ)
  | .doc g d =>
      if g ≠ p.group then (p, none)
      else if p.doc.map sig = some (sig d) then (p, none)
      else ({ p with doc := some d }, none)
  | .request g => if g ≠ p.group then (p, none) else (p, p.doc.map (.doc p.group))

/-- One step. -/
def step (net : List (Peer γ δ)) : Action γ δ → Option (List (Peer γ δ))
  | .enter g => some (net ++ [{ group := g }])
  | .leave i => if i < net.length then some (net.eraseIdx i) else none
  | .load i d =>
      (net[i]?).map fun p => place i { p with doc := some d } (some (.doc p.group d)) net
  | .ask i =>
      (net[i]?).map fun p => place i { p with asked := true } (some (.request p.group)) net
  | .wake i =>
      (net[i]?).map fun p =>
        place i p (if p.doc.isNone then some (.request p.group) else none) net
  | .deliver i k =>
      (net[i]?).bind fun p =>
        (p.inbox[k]?).map fun msg =>
          let r := receive sig { p with inbox := p.inbox.eraseIdx k } msg
          place i r.1 r.2 net

/-! ### The peers after a step -/

variable {sig}

omit [DecidableEq γ] in
@[simp] theorem length_place (i : ℕ) (p' : Peer γ δ) (out : Option (Message γ δ))
    (net : List (Peer γ δ)) : (place i p' out net).length = net.length :=
  List.length_mapIdx

omit [DecidableEq γ] in
/-- A peer that does not change and posts nothing. -/
theorem place_self {i : ℕ} {p : Peer γ δ} {net : List (Peer γ δ)} (hp : net[i]? = some p) :
    place i p none net = net := by
  apply List.ext_getElem?
  intro j
  rw [place, List.getElem?_mapIdx]
  by_cases hj : j = i
  · subst hj
    rw [hp, Option.map_some, if_pos rfl]
  · simp only [if_neg hj, Option.toList_none, List.append_nil]
    exact Option.map_id'

omit [DecidableEq γ] in
/-- The changed peer, or another one with what was posted. -/
theorem mem_place {i : ℕ} {p p' : Peer γ δ} {out : Option (Message γ δ)} {net : List (Peer γ δ)}
    (hp : net[i]? = some p) (q : Peer γ δ) :
    q ∈ place i p' out net ↔ q = p' ∨
      ∃ j r, j ≠ i ∧ net[j]? = some r ∧ q = { r with inbox := r.inbox ++ out.toList } := by
  rw [List.mem_iff_getElem?]
  simp only [place, List.getElem?_mapIdx, Option.map_eq_some_iff]
  constructor
  · rintro ⟨j, r, hr, hq⟩
    by_cases hj : j = i
    · rw [if_pos hj] at hq
      exact Or.inl hq.symm
    · rw [if_neg hj] at hq
      exact Or.inr ⟨j, r, hj, hr, hq.symm⟩
  · rintro (rfl | ⟨j, r, hj, hr, rfl⟩)
    · exact ⟨i, p, hp, if_pos rfl⟩
    · exact ⟨j, r, hr, if_neg hj⟩

omit [DecidableEq γ] in
/-- Every peer is there afterwards, with all it had in its inbox unless it is the changed one. -/
theorem exists_mem_place (p' : Peer γ δ) (out : Option (Message γ δ)) {i : ℕ} {p : Peer γ δ}
    {net : List (Peer γ δ)} (hp : net[i]? = some p) {q : Peer γ δ} (hq : q ∈ net) :
    (q = p ∧ p' ∈ place i p' out net) ∨
      { q with inbox := q.inbox ++ out.toList } ∈ place i p' out net := by
  obtain ⟨j, hj⟩ := List.mem_iff_getElem?.mp hq
  by_cases hji : j = i
  · subst hji
    exact Or.inl ⟨Option.some.inj (hj.symm.trans hp), (mem_place hp _).mpr (Or.inl rfl)⟩
  · exact Or.inr ((mem_place hp _).mpr (Or.inr ⟨j, q, hji, hj, rfl⟩))

/-- What a peer makes of a message: a document of its group is its document afterwards, up to the
signature, and a request of its group is answered. -/
theorem receive_cases (sig : δ → κ) (p : Peer γ δ) (msg : Message γ δ) :
    (receive sig p msg).1.group = p.group ∧ (receive sig p msg).1.asked = p.asked ∧
    (receive sig p msg).1.inbox = p.inbox ∧
    (((receive sig p msg).1.doc = p.doc ∧ (receive sig p msg).2 = none ∧
        (∀ d, msg = .doc p.group d → p.doc.map sig = some (sig d)) ∧
        (msg = .request p.group → p.doc = none)) ∨
      (∃ d, msg = .doc p.group d ∧ (receive sig p msg).1.doc = some d ∧
        (receive sig p msg).2 = none) ∨
      (∃ d, msg = .request p.group ∧ p.doc = some d ∧ (receive sig p msg).1.doc = p.doc ∧
        (receive sig p msg).2 = some (.doc p.group d))) := by
  cases msg with
  | doc g d =>
      by_cases hg : g = p.group
      · by_cases hsame : p.doc.map sig = some (sig d)
        · have hrun : receive sig p (.doc g d) = (p, none) := by
            rw [receive, if_neg (not_not_intro hg), if_pos hsame]
          rw [hrun]
          refine ⟨rfl, rfl, rfl, Or.inl ⟨rfl, rfl, ?_, fun h => nomatch h⟩⟩
          intro d' hd'
          cases hd'
          exact hsame
        · have hrun : receive sig p (.doc g d) = ({ p with doc := some d }, none) := by
            rw [receive, if_neg (not_not_intro hg), if_neg hsame]
          rw [hrun]
          exact ⟨rfl, rfl, rfl, Or.inr (Or.inl ⟨d, by rw [hg], rfl, rfl⟩)⟩
      · have hrun : receive sig p (.doc g d) = (p, none) := by
          rw [receive, if_pos hg]
        rw [hrun]
        refine ⟨rfl, rfl, rfl, Or.inl ⟨rfl, rfl, ?_, fun h => nomatch h⟩⟩
        intro d' hd'
        cases hd'
        exact absurd rfl hg
  | request g =>
      by_cases hg : g = p.group
      · have hrun : receive sig p (.request g) = (p, p.doc.map (.doc p.group)) := by
          rw [receive, if_neg (not_not_intro hg)]
        rw [hrun]
        cases hdoc : p.doc with
        | none => exact ⟨rfl, rfl, rfl, Or.inl ⟨rfl, rfl, fun _ h => (nomatch h), fun _ => rfl⟩⟩
        | some d => exact ⟨rfl, rfl, rfl, Or.inr (Or.inr ⟨d, by rw [hg], rfl, rfl, rfl⟩)⟩
      · have hrun : receive sig p (.request g) = (p, none) := by
          rw [receive, if_pos hg]
        rw [hrun]
        refine ⟨rfl, rfl, rfl, Or.inl ⟨rfl, rfl, fun _ h => (nomatch h), ?_⟩⟩
        intro h
        cases h
        exact absurd rfl hg

/-- What the peer at an index does in an action that is neither an entry nor a leave, and what it
posts. -/
inductive Turn (sig : δ → κ) (i : ℕ) (p : Peer γ δ) :
    Action γ δ → Peer γ δ → Option (Message γ δ) → Prop
  | load (d : δ) : Turn sig i p (.load i d) { p with doc := some d } (some (.doc p.group d))
  | ask : Turn sig i p (.ask i) { p with asked := true } (some (.request p.group))
  | wake (h : p.doc = none) : Turn sig i p (.wake i) p (some (.request p.group))
  | sleep (d : δ) (h : p.doc = some d) : Turn sig i p (.wake i) p none
  | deliver (k : ℕ) (msg : Message γ δ) (h : p.inbox[k]? = some msg) :
      Turn sig i p (.deliver i k) (receive sig { p with inbox := p.inbox.eraseIdx k } msg).1
        (receive sig { p with inbox := p.inbox.eraseIdx k } msg).2

/-- What a step can do. -/
theorem step_cases {net net' : List (Peer γ δ)} {a : Action γ δ}
    (h : step sig net a = some net') :
    (∃ g, a = .enter g ∧ net' = net ++ [{ group := g }]) ∨
    (∃ i, a = .leave i ∧ net' = net.eraseIdx i) ∨
    ∃ i p p' out, net[i]? = some p ∧ Turn sig i p a p' out ∧ net' = place i p' out net := by
  cases a with
  | enter g => exact Or.inl ⟨g, rfl, (Option.some.inj h).symm⟩
  | leave i =>
      rw [step] at h
      split at h
      · exact Or.inr (Or.inl ⟨i, rfl, (Option.some.inj h).symm⟩)
      · cases h
  | load i d =>
      obtain ⟨p, hp, rfl⟩ := Option.map_eq_some_iff.mp h
      exact Or.inr (Or.inr ⟨i, p, _, _, hp, .load d, rfl⟩)
  | ask i =>
      obtain ⟨p, hp, rfl⟩ := Option.map_eq_some_iff.mp h
      exact Or.inr (Or.inr ⟨i, p, _, _, hp, .ask, rfl⟩)
  | wake i =>
      obtain ⟨p, hp, rfl⟩ := Option.map_eq_some_iff.mp h
      refine Or.inr (Or.inr ⟨i, p, p, _, hp, ?_, rfl⟩)
      cases hdoc : p.doc with
      | none => exact .wake hdoc
      | some d => exact .sleep d hdoc
  | deliver i k =>
      obtain ⟨p, hp, hrest⟩ := Option.bind_eq_some_iff.mp h
      obtain ⟨msg, hmsg, rfl⟩ := Option.map_eq_some_iff.mp hrest
      exact Or.inr (Or.inr ⟨i, p, _, _, hp, .deliver k msg hmsg, rfl⟩)

/-! ### Where documents come from -/

/-- All documents of the peers and on their way are in a relation to their group. -/
def AllOk (ok : γ → δ → Prop) (net : List (Peer γ δ)) : Prop :=
  ∀ p ∈ net, (∀ d, p.doc = some d → ok p.group d) ∧ ∀ g d, .doc g d ∈ p.inbox → ok g d

omit [DecidableEq γ] in
theorem AllOk.mono {ok ok' : γ → δ → Prop} {net : List (Peer γ δ)} (h : AllOk ok net)
    (himp : ∀ g d, ok g d → ok' g d) : AllOk ok' net :=
  fun p hp => ⟨fun d hd => himp _ d ((h p hp).1 d hd), fun g d hd => himp g d ((h p hp).2 g d hd)⟩

/-- One step, in which a document from outside is in the relation. -/
theorem AllOk.step {ok : γ → δ → Prop} {net net' : List (Peer γ δ)} {a : Action γ δ}
    (h : AllOk ok net) (hload : ∀ i d p, a = .load i d → net[i]? = some p → ok p.group d)
    (hstep : step sig net a = some net') : AllOk ok net' := by
  rcases step_cases hstep with ⟨g, -, rfl⟩ | ⟨i, -, rfl⟩ | ⟨i, p, p', out, hp, hturn, rfl⟩
  · intro q hq
    rcases List.mem_append.mp hq with hq | hq
    · exact h q hq
    · rw [List.mem_singleton.mp hq]
      exact ⟨fun _ hd => (nomatch hd), fun _ _ hd => nomatch hd⟩
  · exact fun q hq => h q (List.mem_of_mem_eraseIdx hq)
  · have hmem : p ∈ net := List.mem_of_getElem? hp
    obtain ⟨hdoc, hinbox⟩ := h p hmem
    -- The peer itself and what it posts.
    have hlocal : ((∀ d, p'.doc = some d → ok p'.group d) ∧
        (∀ g d, .doc g d ∈ p'.inbox → ok g d)) ∧ ∀ g d, out = some (.doc g d) → ok g d := by
      cases hturn with
      | load d =>
          have hd : ok p.group d := hload i d p rfl hp
          refine ⟨⟨?_, hinbox⟩, ?_⟩
          · rintro d' ⟨⟩
            exact hd
          · rintro g d' ⟨⟩
            exact hd
      | ask => exact ⟨⟨hdoc, hinbox⟩, fun _ _ hd => nomatch hd⟩
      | wake hnone => exact ⟨⟨hdoc, hinbox⟩, fun _ _ hd => nomatch hd⟩
      | sleep d hd => exact ⟨⟨hdoc, hinbox⟩, fun _ _ hd => nomatch hd⟩
      | deliver k msg hmsg =>
          have hmsg' : msg ∈ p.inbox := List.mem_of_getElem? hmsg
          obtain ⟨hgroup, -, hrest, hcases⟩ :=
            receive_cases sig { p with inbox := p.inbox.eraseIdx k } msg
          refine ⟨⟨?_, ?_⟩, ?_⟩
          · rw [hgroup]
            intro d hd
            rcases hcases with ⟨hsame, -⟩ | ⟨d', rfl, hnew, -⟩ | ⟨d', -, -, hsame, -⟩
            · exact hdoc d (hsame.symm.trans hd)
            · obtain rfl : d' = d := Option.some.inj (hnew.symm.trans hd)
              exact hinbox p.group d' hmsg'
            · exact hdoc d (hsame.symm.trans hd)
          · rw [hrest]
            exact fun g d hd => hinbox g d (List.mem_of_mem_eraseIdx hd)
          · intro g d hd
            rcases hcases with ⟨-, hnone, -⟩ | ⟨d', -, -, hnone⟩ | ⟨d', -, hold, -, hanswer⟩
            · cases hnone.symm.trans hd
            · cases hnone.symm.trans hd
            · obtain ⟨rfl, rfl⟩ := Message.doc.inj (Option.some.inj (hanswer.symm.trans hd))
              exact hdoc d' hold
    intro q hq
    rcases (mem_place hp q).mp hq with rfl | ⟨j, r, -, hr, rfl⟩
    · exact hlocal.1
    · obtain ⟨hrdoc, hrinbox⟩ := h r (List.mem_of_getElem? hr)
      refine ⟨hrdoc, fun g d hd => ?_⟩
      rcases List.mem_append.mp hd with hd | hd
      · exact hrinbox g d hd
      · exact hlocal.2 g d (Option.mem_toList.mp hd)

/-- The document that comes from outside in an action, with the group it comes into. -/
def loadedBy (net : List (Peer γ δ)) : Action γ δ → List (γ × δ)
  | .load i d => (net[i]?).toList.map fun p => (p.group, d)
  | _ => []

/-- The documents that come from outside in a run. -/
def loaded (sig : δ → κ) (net : List (Peer γ δ)) : List (Action γ δ) → List (γ × δ)
  | [] => []
  | a :: as =>
      loadedBy net a ++ match step sig net a with
        | some net' => loaded sig net' as
        | none => []

/-- The deliveries that a message can lead to, its own one included: a request is answered with
one document for every other peer. -/
def weight (n : ℕ) : Message γ δ → ℕ
  | .doc _ _ => 1
  | .request _ => n

/-- The deliveries that the messages on their way can lead to. -/
def cost (net : List (Peer γ δ)) : ℕ :=
  (net.map fun p => (p.inbox.map (weight net.length)).sum).sum

omit [DecidableEq γ] in
/-- A sum over the peers after a change of one of them, when what is posted adds the same to each
of the others. -/
theorem sum_map_place (c : Peer γ δ → ℕ) (w : ℕ) (out : Option (Message γ δ))
    (hc : ∀ p : Peer γ δ, c { p with inbox := p.inbox ++ out.toList } = c p + w)
    (p' : Peer γ δ) {net : List (Peer γ δ)} {i : ℕ} {p : Peer γ δ} (hp : net[i]? = some p) :
    ((place i p' out net).map c).sum + c p + w = (net.map c).sum + c p' + net.length * w := by
  induction net generalizing i with
  | nil => cases hp
  | cons q net ih =>
      unfold place at ih ⊢
      rw [List.mapIdx_cons, List.map_cons, List.sum_cons, List.map_cons, List.sum_cons,
        List.length_cons, Nat.succ_mul]
      cases i with
      | zero =>
          obtain rfl : q = p := Option.some.inj hp
          have hrest : (net.mapIdx fun j r => if j + 1 = 0 then p'
              else { r with inbox := r.inbox ++ out.toList }).map c = net.map fun r => c r + w := by
            apply List.ext_getElem
            · simp
            · intro j hj _
              simp [hc]
          rw [if_pos rfl, hrest, List.sum_map_add, List.map_const', List.sum_replicate,
            Nat.nsmul_eq_mul]
          omega
      | succ i =>
          have hih := ih (i := i) hp
          simp only [Nat.add_right_cancel_iff] at hih ⊢
          rw [if_neg (Nat.succ_ne_zero i).symm, hc]
          omega

/-- A delivery costs something. -/
theorem cost_deliver {net net' : List (Peer γ δ)} {i k : ℕ}
    (hstep : step sig net (.deliver i k) = some net') : cost net' + 1 ≤ cost net := by
  obtain ⟨p, hp, hrest⟩ := Option.bind_eq_some_iff.mp hstep
  obtain ⟨msg, hmsg, rfl⟩ := Option.map_eq_some_iff.mp hrest
  have hpos : 0 < net.length := List.length_pos_of_mem (List.mem_of_getElem? hp)
  obtain ⟨-, -, hinbox, hcases⟩ :=
    receive_cases sig { p with inbox := p.inbox.eraseIdx k } msg
  generalize receive sig { p with inbox := p.inbox.eraseIdx k } msg = r at hinbox hcases
  let c (n : ℕ) (q : Peer γ δ) : ℕ := (q.inbox.map (weight n)).sum
  -- The message is gone from the inbox.
  have hgone : c net.length p = weight net.length msg + c net.length r.1 := by
    obtain ⟨hk, rfl⟩ := List.getElem?_eq_some_iff.mp hmsg
    have hperm := (List.getElem_cons_eraseIdx_perm hk).map (weight net.length)
    show (p.inbox.map _).sum = _ + (r.1.inbox.map _).sum
    rw [hinbox, ← hperm.sum_eq, List.map_cons, List.sum_cons]
  have hweight : 1 ≤ weight net.length msg := by
    cases msg with
    | doc g d => exact Nat.le_refl 1
    | request g => exact hpos
  have hcost : cost (place i r.1 r.2 net) = ((place i r.1 r.2 net).map (c net.length)).sum := by
    unfold cost
    rw [length_place]
  have hbefore : cost net = (net.map (c net.length)).sum := rfl
  show cost (place i r.1 r.2 net) + 1 ≤ cost net
  have hsilent (hnone : r.2 = none) : cost (place i r.1 r.2 net) + 1 ≤ cost net := by
    have hsum := sum_map_place (c net.length) 0 r.2
      (fun q => by simp [c, hnone]) r.1 hp
    omega
  rcases hcases with ⟨-, hnone, -⟩ | ⟨d, -, -, hnone⟩ | ⟨d, rfl, -, -, hanswer⟩
  · exact hsilent hnone
  · exact hsilent hnone
  · -- The answer goes to all others, and the request has paid for it.
    have hsum := sum_map_place (c net.length) 1 r.2
      (fun q => by simp [c, hanswer, weight]) r.1 hp
    have hrequest (g : γ) : weight net.length (.request g : Message γ δ) = net.length := rfl
    rw [hrequest] at hgone
    omega

/-- Deliveries alone come to an end. -/
theorem exec_deliver_length {net net' : List (Peer γ δ)} {as : List (Action γ δ)}
    (hdeliver : ∀ a ∈ as, ∃ i k, a = .deliver i k) (hrun : Run.exec (step sig) net as = some net') :
    as.length + cost net' ≤ cost net := by
  induction as generalizing net with
  | nil =>
      obtain rfl := Option.some.inj hrun
      show 0 + cost net ≤ cost net
      exact Nat.le_of_eq (Nat.zero_add _)
  | cons a as ih =>
      rw [Run.exec] at hrun
      obtain ⟨net₁, hstep, hrest⟩ := Option.bind_eq_some_iff.mp hrun
      obtain ⟨i, k, rfl⟩ := hdeliver a List.mem_cons_self
      have hone := cost_deliver hstep
      have hmany := ih (fun a ha => hdeliver a (List.mem_cons_of_mem _ ha)) hrest
      rw [List.length_cons]
      omega

/-! ### Who has a document -/

/-- A peer of the group has a document. -/
def Held (net : List (Peer γ δ)) (g : γ) : Prop := ∃ p ∈ net, p.group = g ∧ p.doc ≠ none

/-- A document of the group is on its way to a peer of it. -/
def DocComing (net : List (Peer γ δ)) (g : γ) (d : δ) : Prop :=
  ∃ p ∈ net, p.group = g ∧ .doc g d ∈ p.inbox

/-- A request of the group is on its way to a peer of it. -/
def RequestComing (net : List (Peer γ δ)) (g : γ) : Prop :=
  ∃ p ∈ net, p.group = g ∧ .request g ∈ p.inbox

/-- Nothing is on its way in the group. -/
def Quiet (net : List (Peer γ δ)) (g : γ) : Prop :=
  (∀ d, ¬ DocComing net g d) ∧ ¬ RequestComing net g

/-- A peer leaves a quiet group. -/
def LeavesQuiet (net : List (Peer γ δ)) : Action γ δ → Prop
  | .leave i => ∀ p, net[i]? = some p → Quiet net p.group
  | _ => True

/-- A document on its way is one that a peer of the group has, and a peer that has asked and has
none will get one: it is on its way to it, or a request to a peer that has one. -/
structure Served (net : List (Peer γ δ)) : Prop where
  held : ∀ g d, DocComing net g d → Held net g
  served : ∀ p ∈ net, p.asked = true → p.doc = none → Held net p.group →
    (∃ d, .doc p.group d ∈ p.inbox) ∨
      ∃ q ∈ net, q.group = p.group ∧ q.doc ≠ none ∧ .request p.group ∈ q.inbox

omit [DecidableEq γ] in
theorem Served.enter {net : List (Peer γ δ)} (h : Served net) (g : γ) :
    Served (net ++ [{ group := g }]) := by
  have hheld (g' : γ) : Held (net ++ [{ group := g }]) g' ↔ Held net g' := by
    unfold Held
    constructor
    · rintro ⟨p, hp, hgroup, hdoc⟩
      rcases List.mem_append.mp hp with hp | hp
      · exact ⟨p, hp, hgroup, hdoc⟩
      · rw [List.mem_singleton.mp hp] at hdoc
        exact absurd rfl hdoc
    · rintro ⟨p, hp, hgroup, hdoc⟩
      exact ⟨p, List.mem_append_left _ hp, hgroup, hdoc⟩
  constructor
  · rintro g' d ⟨p, hp, hgroup, hd⟩
    rw [hheld]
    rcases List.mem_append.mp hp with hp | hp
    · exact h.held g' d ⟨p, hp, hgroup, hd⟩
    · rw [List.mem_singleton.mp hp] at hd
      cases hd
  · intro p hp hasked hnone hany
    rw [hheld] at hany
    rcases List.mem_append.mp hp with hp | hp
    · rcases h.served p hp hasked hnone hany with hdoc | ⟨q, hq, hrest⟩
      · exact Or.inl hdoc
      · exact Or.inr ⟨q, List.mem_append_left _ hq, hrest⟩
    · rw [List.mem_singleton.mp hp] at hasked
      cases hasked

omit [DecidableEq γ] in
theorem Served.leave {net : List (Peer γ δ)} (h : Served net) {i : ℕ}
    (hquiet : LeavesQuiet net (.leave i)) : Served (net.eraseIdx i) := by
  cases hp : net[i]? with
  | none =>
      rw [List.eraseIdx_of_length_le (List.getElem?_eq_none_iff.mp hp)]
      exact h
  | some p =>
      obtain ⟨hnodoc, hnorequest⟩ := hquiet p hp
      have hback {q : Peer γ δ} (hq : q ∈ net.eraseIdx i) : q ∈ net := List.mem_of_mem_eraseIdx hq
      have hstays {q : Peer γ δ} (hq : q ∈ net) (hgroup : q.group ≠ p.group) :
          q ∈ net.eraseIdx i := by
        obtain ⟨j, hj⟩ := List.mem_iff_getElem?.mp hq
        refine List.mem_eraseIdx_iff_getElem?.mpr ⟨j, ?_, hj⟩
        rintro rfl
        exact hgroup (congrArg Peer.group (Option.some.inj (hj.symm.trans hp)))
      constructor
      · rintro g d ⟨q, hq, hgroup, hd⟩
        by_cases hg : g = p.group
        · exact absurd ⟨q, hback hq, hgroup.trans hg, hg ▸ hd⟩ (hnodoc d)
        · obtain ⟨r, hr, hrgroup, hrdoc⟩ := h.held g d ⟨q, hback hq, hgroup, hd⟩
          exact ⟨r, hstays hr (hrgroup ▸ hg), hrgroup, hrdoc⟩
      · rintro q hq hasked hnone ⟨r, hr, hrgroup, hrdoc⟩
        rcases h.served q (hback hq) hasked hnone ⟨r, hback hr, hrgroup, hrdoc⟩ with
          hdoc | ⟨s, hs, hsgroup, hsdoc, hrequest⟩
        · exact Or.inl hdoc
        · by_cases hg : q.group = p.group
          · exact absurd ⟨s, hs, hsgroup.trans hg, hg ▸ hrequest⟩ hnorequest
          · exact Or.inr ⟨s, hstays hs (hsgroup.trans_ne hg), hsgroup, hsdoc, hrequest⟩

/-- What a turn does to the peer and what it posts, as far as requests and documents go. -/
structure TurnSpec (p p' : Peer γ δ) (out : Option (Message γ δ)) : Prop where
  group : p'.group = p.group
  keeps : p.doc ≠ none → p'.doc ≠ none
  noNew : ∀ g d, .doc g d ∈ p'.inbox → .doc g d ∈ p.inbox
  posts : ∀ g d, out = some (.doc g d) → g = p.group ∧ p'.doc ≠ none
  takes : ∀ d, .doc p.group d ∈ p.inbox → .doc p.group d ∈ p'.inbox ∨ p'.doc ≠ none
  answers : .request p.group ∈ p.inbox → .request p.group ∈ p'.inbox ∨
    (∃ d, out = some (.doc p.group d)) ∨ p'.doc = none
  gets : p.doc = none → p'.doc ≠ none →
    (∃ d, .doc p.group d ∈ p.inbox) ∨ ∃ d, out = some (.doc p.group d)
  asks : p'.asked = true → p.asked = true ∨ out = some (.request p.group)

omit [DecidableEq γ] in
/-- Another message is still there when one is taken out of the inbox. -/
theorem mem_eraseIdx_of_ne {l : List (Message γ δ)} {k : ℕ} {msg m : Message γ δ}
    (hk : l[k]? = some msg) (hm : m ∈ l) (hne : m ≠ msg) : m ∈ l.eraseIdx k := by
  obtain ⟨j, hj⟩ := List.mem_iff_getElem?.mp hm
  refine List.mem_eraseIdx_iff_getElem?.mpr ⟨j, ?_, hj⟩
  rintro rfl
  exact hne (Option.some.inj (hj.symm.trans hk))

theorem Turn.spec {i : ℕ} {p p' : Peer γ δ} {a : Action γ δ} {out : Option (Message γ δ)}
    (h : Turn sig i p a p' out) : TurnSpec p p' out := by
  cases h with
  | load d =>
      exact ⟨rfl, fun _ => Option.some_ne_none d, fun _ _ hd => hd,
        fun _ _ hd => ⟨by cases hd; rfl, Option.some_ne_none d⟩, fun _ hd => Or.inl hd,
        fun hr => Or.inl hr, fun _ _ => Or.inr ⟨d, rfl⟩, fun hasked => Or.inl hasked⟩
  | ask =>
      exact ⟨rfl, fun hd => hd, fun _ _ hd => hd, fun _ _ hd => (nomatch hd), fun _ hd => Or.inl hd,
        fun hr => Or.inl hr, fun hnone hsome => absurd hnone hsome, fun _ => Or.inr rfl⟩
  | wake hnone =>
      exact ⟨rfl, fun hd => hd, fun _ _ hd => hd, fun _ _ hd => (nomatch hd), fun _ hd => Or.inl hd,
        fun hr => Or.inl hr, fun hnone hsome => absurd hnone hsome, fun hasked => Or.inl hasked⟩
  | sleep d hd =>
      exact ⟨rfl, fun hd => hd, fun _ _ hd => hd, fun _ _ hd => (nomatch hd), fun _ hd => Or.inl hd,
        fun hr => Or.inl hr, fun hnone hsome => absurd hnone hsome, fun hasked => Or.inl hasked⟩
  | deliver k msg hmsg =>
      obtain ⟨hgroup, hasked, hinbox, hcases⟩ :=
        receive_cases sig { p with inbox := p.inbox.eraseIdx k } msg
      generalize receive sig { p with inbox := p.inbox.eraseIdx k } msg = r
        at hgroup hasked hinbox hcases
      replace hgroup : r.1.group = p.group := hgroup
      replace hinbox : r.1.inbox = p.inbox.eraseIdx k := hinbox
      have hnoNew (g : γ) (d : δ) (hd : .doc g d ∈ r.1.inbox) : .doc g d ∈ p.inbox := by
        rw [hinbox] at hd
        exact List.mem_of_mem_eraseIdx hd
      have hasks (ha : r.1.asked = true) : p.asked = true ∨ r.2 = some (.request p.group) :=
        Or.inl (hasked ▸ ha)
      have hother {m : Message γ δ} (hm : m ∈ p.inbox) (hne : m ≠ msg) : m ∈ r.1.inbox := by
        rw [hinbox]
        exact mem_eraseIdx_of_ne hmsg hm hne
      rcases hcases with ⟨hdoc, hnone, hsame, hrequest⟩ | ⟨d, rfl, hdoc, hnone⟩ |
        ⟨d, rfl, hold, hdoc, hanswer⟩
      · -- Nothing happens.
        replace hdoc : r.1.doc = p.doc := hdoc
        refine ⟨hgroup, fun hd => hdoc ▸ hd, hnoNew, ?_, ?_, ?_, ?_, hasks⟩
        · intro g d hd
          cases hnone.symm.trans hd
        · intro d hd
          by_cases hm : (.doc p.group d : Message γ δ) = msg
          · refine Or.inr ?_
            rw [hdoc]
            intro habsent
            have hsig := hsame d hm.symm
            rw [show p.doc = none from habsent] at hsig
            cases hsig
          · exact Or.inl (hother hd hm)
        · intro hr
          by_cases hm : (.request p.group : Message γ δ) = msg
          · exact Or.inr (Or.inr (hdoc.trans (hrequest hm.symm)))
          · exact Or.inl (hother hr hm)
        · exact fun hbefore hafter => absurd (hdoc.trans hbefore) hafter
      · -- A document comes in.
        have hsome : r.1.doc ≠ none := by
          rw [hdoc]
          exact Option.some_ne_none d
        refine ⟨hgroup, fun _ => hsome, hnoNew, ?_, fun _ _ => Or.inr hsome, ?_, ?_, hasks⟩
        · intro g d hd
          cases hnone.symm.trans hd
        · exact fun hr => Or.inl (hother hr fun hm => nomatch hm)
        · exact fun _ _ => Or.inl ⟨d, List.mem_of_getElem? hmsg⟩
      · -- A request is answered.
        have hsome : r.1.doc ≠ none := by
          rw [hdoc, hold]
          exact Option.some_ne_none d
        refine ⟨hgroup, fun _ => hsome, hnoNew, ?_, fun _ _ => Or.inr hsome,
          fun _ => Or.inr (Or.inl ⟨d, hanswer⟩), ?_, hasks⟩
        · intro g d' hd
          obtain ⟨rfl, -⟩ := Message.doc.inj (Option.some.inj (hanswer.symm.trans hd))
          exact ⟨rfl, hsome⟩
        · intro hnone
          rw [show p.doc = some d from hold] at hnone
          cases hnone

omit [DecidableEq γ] in
/-- Whoever has a document still has one. -/
theorem Held.place {net : List (Peer γ δ)} {i : ℕ} {p p' : Peer γ δ}
    {out : Option (Message γ δ)} (hp : net[i]? = some p) (hspec : TurnSpec p p' out) {g : γ}
    (h : Held net g) : Held (place i p' out net) g := by
  obtain ⟨q, hq, hgroup, hdoc⟩ := h
  rcases exists_mem_place p' out hp hq with ⟨rfl, hmem⟩ | hmem
  · exact ⟨p', hmem, hspec.group.trans hgroup, hspec.keeps hdoc⟩
  · exact ⟨_, hmem, hgroup, hdoc⟩

omit [DecidableEq γ] in
theorem Served.place {net : List (Peer γ δ)} (h : Served net) {i : ℕ} {p p' : Peer γ δ}
    {out : Option (Message γ δ)} (hp : net[i]? = some p) (hspec : TurnSpec p p' out) :
    Served (place i p' out net) := by
  have hmem : p ∈ net := List.mem_of_getElem? hp
  have hself : p' ∈ Sharing.place i p' out net := (mem_place hp p').mpr (Or.inl rfl)
  constructor
  · rintro g d ⟨q, hq, hgroup, hd⟩
    rcases (mem_place hp q).mp hq with rfl | ⟨j, r, -, hr, rfl⟩
    · exact (h.held g d ⟨p, hmem, hspec.group.symm.trans hgroup, hspec.noNew g d hd⟩).place hp hspec
    · rcases List.mem_append.mp hd with hd | hd
      · exact (h.held g d ⟨r, List.mem_of_getElem? hr, hgroup, hd⟩).place hp hspec
      · obtain ⟨rfl, hsome⟩ := hspec.posts g d (Option.mem_toList.mp hd)
        exact ⟨p', hself, hspec.group, hsome⟩
  · intro q hq hasked hnone ⟨s, hs, hsgroup, hsdoc⟩
    rcases (mem_place hp q).mp hq with rfl | ⟨j, r, hj, hr, rfl⟩
    · -- The peer of the turn has no document, so it had none before.
      have hbefore : p.doc = none := by
        by_contra hsome
        exact hspec.keeps hsome hnone
      rw [hspec.group] at hsgroup ⊢
      obtain ⟨t, ht, htgroup, htdoc⟩ : Held net p.group := by
        rcases (mem_place hp s).mp hs with rfl | ⟨j, r, -, hr, rfl⟩
        · exact absurd hnone hsdoc
        · exact ⟨r, List.mem_of_getElem? hr, hsgroup, hsdoc⟩
      have hstays {t : Peer γ δ} (ht : t ∈ net) (htdoc : t.doc ≠ none) :
          { t with inbox := t.inbox ++ out.toList } ∈ Sharing.place i q out net := by
        rcases exists_mem_place q out hp ht with ⟨rfl, -⟩ | hmem'
        · exact absurd hbefore htdoc
        · exact hmem'
      rcases hspec.asks hasked with hbefore' | hout
      · rcases h.served p hmem hbefore' hbefore ⟨t, ht, htgroup, htdoc⟩ with
          ⟨d, hd⟩ | ⟨u, hu, hugroup, hudoc, hrequest⟩
        · rcases hspec.takes d hd with hd | hsome
          · exact Or.inl ⟨d, hd⟩
          · exact absurd hnone hsome
        · exact Or.inr ⟨_, hstays hu hudoc, hugroup, hudoc, List.mem_append_left _ hrequest⟩
      · refine Or.inr ⟨_, hstays ht htdoc, htgroup, htdoc, List.mem_append_right _ ?_⟩
        rw [hout]
        exact List.mem_singleton_self _
    · -- Another peer, which may get what is posted.
      have hrmem : r ∈ net := List.mem_of_getElem? hr
      by_cases hheld : Held net r.group
      · rcases h.served r hrmem hasked hnone hheld with
          ⟨d, hd⟩ | ⟨u, hu, hugroup, hudoc, hrequest⟩
        · exact Or.inl ⟨d, List.mem_append_left _ hd⟩
        · rcases exists_mem_place p' out hp hu with ⟨rfl, -⟩ | hu'
          · rw [← hugroup] at hrequest
            rcases hspec.answers hrequest with hkept | ⟨d, hout⟩ | habsent
            · exact Or.inr ⟨p', hself, hspec.group.trans hugroup, hspec.keeps hudoc,
                hugroup ▸ hkept⟩
            · refine Or.inl ⟨d, List.mem_append_right _ ?_⟩
              rw [hout, hugroup]
              exact List.mem_singleton_self _
            · exact absurd habsent (hspec.keeps hudoc)
          · exact Or.inr ⟨_, hu', hugroup, hudoc, List.mem_append_left _ hrequest⟩
      · -- The first document of the group is the one that the turn brings.
        obtain ⟨hgroup, hsome, hbefore⟩ : p.group = r.group ∧ p'.doc ≠ none ∧ p.doc = none := by
          rcases (mem_place hp s).mp hs with rfl | ⟨j, t, -, ht, rfl⟩
          · refine ⟨hspec.group.symm.trans hsgroup, hsdoc, ?_⟩
            by_contra hsome
            exact hheld ⟨p, hmem, hspec.group.symm.trans hsgroup, hsome⟩
          · exact absurd ⟨t, List.mem_of_getElem? ht, hsgroup, hsdoc⟩ hheld
        rcases hspec.gets hbefore hsome with ⟨d, hd⟩ | ⟨d, hout⟩
        · exact absurd (hgroup ▸ h.held p.group d ⟨p, hmem, rfl, hd⟩) hheld
        · refine Or.inl ⟨d, List.mem_append_right _ ?_⟩
          rw [hout, hgroup]
          exact List.mem_singleton_self _

/-- One step, in which nobody leaves a group that is not quiet. -/
theorem Served.step {net net' : List (Peer γ δ)} {a : Action γ δ} (h : Served net)
    (hleave : LeavesQuiet net a) (hstep : step sig net a = some net') : Served net' := by
  rcases step_cases hstep with ⟨g, -, rfl⟩ | ⟨i, rfl, rfl⟩ | ⟨i, p, p', out, hp, hturn, rfl⟩
  · exact h.enter g
  · exact h.leave hleave
  · exact h.place hp hturn.spec

/-- In a quiet group all peers that have asked have a document, or no peer has one. -/
theorem exec_served {net : List (Peer γ δ)} {as : List (Action γ δ)}
    (hleave : Run.Along (step sig) LeavesQuiet [] as)
    (hrun : Run.exec (step sig) [] as = some net) {g : γ} (hquiet : Quiet net g)
    (hheld : Held net g) {p : Peer γ δ} (hp : p ∈ net) (hgroup : p.group = g)
    (hasked : p.asked = true) : p.doc ≠ none := by
  have hserved : Served net := Run.exec_invariant (fun _ _ _ h hP hstep => h.step hP hstep)
    ⟨fun _ _ ⟨_, hp, _⟩ => absurd hp List.not_mem_nil, fun _ hp => absurd hp List.not_mem_nil⟩
    hleave hrun
  intro hnone
  subst hgroup
  rcases hserved.served p hp hasked hnone hheld with ⟨d, hd⟩ | ⟨q, hq, hqgroup, -, hrequest⟩
  · exact hquiet.1 d ⟨p, hp, rfl, hd⟩
  · exact hquiet.2 ⟨q, hq, hqgroup, hrequest⟩

/-! ### Which document they have -/

/-- A document comes from outside into a quiet group, and a peer asks when no document is on its
way in its group. -/
def Calm (net : List (Peer γ δ)) : Action γ δ → Prop
  | .load i _ => ∀ p, net[i]? = some p → Quiet net p.group
  | .ask i => ∀ p, net[i]? = some p → ∀ d, ¬ DocComing net p.group d
  | .wake i => ∀ p, net[i]? = some p → p.doc = none → ∀ d, ¬ DocComing net p.group d
  | _ => True

/-- In a group, with the signature of the last document that came from outside: that is the one on
its way, and a peer has it or will get it. No request meets a peer with another one. -/
structure Agreed (sig : δ → κ) (g : γ) (last : Option κ) (net : List (Peer γ δ)) : Prop where
  coming : ∀ d, DocComing net g d → last = some (sig d)
  holders : ∀ p ∈ net, p.group = g → ∀ d, p.doc = some d →
    last = some (sig d) ∨ ∃ d', .doc g d' ∈ p.inbox
  requests : RequestComing net g → ∀ p ∈ net, p.group = g → ∀ d, p.doc = some d →
    last = some (sig d)

variable {g : γ} {last : Option κ}

omit [DecidableEq γ] [DecidableEq κ] in
theorem Agreed.enter {net : List (Peer γ δ)} (h : Agreed sig g last net) (g' : γ) :
    Agreed sig g last (net ++ [{ group := g' }]) := by
  have hold {q : Peer γ δ} (hq : q ∈ net ++ [{ group := g' }]) :
      q ∈ net ∨ (q.doc = none ∧ q.inbox = []) := by
    rcases List.mem_append.mp hq with hq | hq
    · exact Or.inl hq
    · rw [List.mem_singleton.mp hq]
      exact Or.inr ⟨rfl, rfl⟩
  constructor
  · rintro d ⟨q, hq, hgroup, hd⟩
    rcases hold hq with hq | ⟨-, hempty⟩
    · exact h.coming d ⟨q, hq, hgroup, hd⟩
    · rw [hempty] at hd
      cases hd
  · intro q hq hgroup d hd
    rcases hold hq with hq | ⟨hnone, -⟩
    · exact h.holders q hq hgroup d hd
    · cases hnone.symm.trans hd
  · rintro ⟨r, hr, hrgroup, hrequest⟩ q hq hgroup d hd
    rcases hold hr with hr | ⟨-, hempty⟩
    · rcases hold hq with hq | ⟨hnone, -⟩
      · exact h.requests ⟨r, hr, hrgroup, hrequest⟩ q hq hgroup d hd
      · cases hnone.symm.trans hd
    · rw [hempty] at hrequest
      cases hrequest

omit [DecidableEq γ] [DecidableEq κ] in
theorem Agreed.of_subset {net net' : List (Peer γ δ)} (h : Agreed sig g last net)
    (hsub : ∀ p ∈ net', p ∈ net) : Agreed sig g last net' where
  coming d := fun ⟨p, hp, hrest⟩ => h.coming d ⟨p, hsub p hp, hrest⟩
  holders p hp := h.holders p (hsub p hp)
  requests := fun ⟨r, hr, hrest⟩ p hp => h.requests ⟨r, hsub r hr, hrest⟩ p (hsub p hp)

omit [DecidableEq γ] [DecidableEq κ] in
/-- A turn that brings nothing new: no document comes back into an inbox, a posted document is the
last one, and the peer has the last one or is as before. A posted request meets peers that have
the last one. -/
theorem Agreed.place {net : List (Peer γ δ)} (h : Agreed sig g last net) {i : ℕ} {p p' : Peer γ δ}
    {out : Option (Message γ δ)} (hp : net[i]? = some p) (hgroup : p'.group = p.group)
    (hinbox : ∀ m ∈ p'.inbox, m ∈ p.inbox) (hout : ∀ d, out = some (.doc g d) → last = some (sig d))
    (hdoc : p.group = g → ∀ d, p'.doc = some d → last = some (sig d) ∨
      (p.doc = some d ∧ ∀ d', .doc g d' ∈ p.inbox → .doc g d' ∈ p'.inbox))
    (hasked : out = some (.request g) → ∀ q ∈ net, q.group = g → ∀ d, q.doc = some d →
      last = some (sig d)) : Agreed sig g last (place i p' out net) := by
  have hmem : p ∈ net := List.mem_of_getElem? hp
  constructor
  · rintro d ⟨q, hq, hqgroup, hd⟩
    rcases (mem_place hp q).mp hq with rfl | ⟨j, r, -, hr, rfl⟩
    · exact h.coming d ⟨p, hmem, hgroup.symm.trans hqgroup, hinbox _ hd⟩
    · rcases List.mem_append.mp hd with hd | hd
      · exact h.coming d ⟨r, List.mem_of_getElem? hr, hqgroup, hd⟩
      · exact hout d (Option.mem_toList.mp hd)
  · intro q hq hqgroup d hd
    rcases (mem_place hp q).mp hq with rfl | ⟨j, r, -, hr, rfl⟩
    · rcases hdoc (hgroup.symm.trans hqgroup) d hd with hlast | ⟨hsame, hkept⟩
      · exact Or.inl hlast
      · rcases h.holders p hmem (hgroup.symm.trans hqgroup) d hsame with hlast | ⟨d', hd'⟩
        · exact Or.inl hlast
        · exact Or.inr ⟨d', hkept d' hd'⟩
    · rcases h.holders r (List.mem_of_getElem? hr) hqgroup d hd with hlast | ⟨d', hd'⟩
      · exact Or.inl hlast
      · exact Or.inr ⟨d', List.mem_append_left _ hd'⟩
  · rintro ⟨r, hr, hrgroup, hrequest⟩ q hq hqgroup d hd
    -- All peers of the group had the last document when there was a request for it.
    have hall : ∀ q ∈ net, q.group = g → ∀ d, q.doc = some d → last = some (sig d) := by
      rcases (mem_place hp r).mp hr with rfl | ⟨j, t, -, ht, rfl⟩
      · exact h.requests ⟨p, hmem, hgroup.symm.trans hrgroup, hinbox _ hrequest⟩
      · rcases List.mem_append.mp hrequest with hrequest | hrequest
        · exact h.requests ⟨t, List.mem_of_getElem? ht, hrgroup, hrequest⟩
        · exact hasked (Option.mem_toList.mp hrequest)
    rcases (mem_place hp q).mp hq with rfl | ⟨j, t, -, ht, rfl⟩
    · rcases hdoc (hgroup.symm.trans hqgroup) d hd with hlast | ⟨hsame, -⟩
      · exact hlast
      · exact hall p hmem (hgroup.symm.trans hqgroup) d hsame
    · exact hall t (List.mem_of_getElem? ht) hqgroup d hd

omit [DecidableEq γ] [DecidableEq κ] in
/-- A document from outside is the last one, in a group that was quiet. -/
theorem agreed_load {net : List (Peer γ δ)} {i : ℕ} {p : Peer γ δ} (hp : net[i]? = some p)
    (hgroup : p.group = g) (hquiet : Quiet net g) (d : δ) :
    Agreed sig g (some (sig d))
      (Sharing.place i { p with doc := some d } (some (.doc p.group d)) net) := by
  have hmem : p ∈ net := List.mem_of_getElem? hp
  constructor
  · rintro d' ⟨q, hq, hqgroup, hd⟩
    rcases (mem_place hp q).mp hq with rfl | ⟨j, r, -, hr, rfl⟩
    · exact absurd ⟨p, hmem, hgroup, hd⟩ (hquiet.1 d')
    · rcases List.mem_append.mp hd with hd | hd
      · exact absurd ⟨r, List.mem_of_getElem? hr, hqgroup, hd⟩ (hquiet.1 d')
      · obtain ⟨-, rfl⟩ := Message.doc.inj (Option.some.inj (Option.mem_toList.mp hd))
        rfl
  · intro q hq hqgroup d' hd
    rcases (mem_place hp q).mp hq with rfl | ⟨j, r, -, hr, rfl⟩
    · exact Or.inl (congrArg (Option.map sig) hd)
    · refine Or.inr ⟨d, List.mem_append_right _ ?_⟩
      rw [hgroup]
      exact List.mem_singleton_self _
  · rintro ⟨r, hr, hrgroup, hrequest⟩
    rcases (mem_place hp r).mp hr with rfl | ⟨j, t, -, ht, rfl⟩
    · exact absurd ⟨p, hmem, hgroup, hrequest⟩ hquiet.2
    · rcases List.mem_append.mp hrequest with hrequest | hrequest
      · exact absurd ⟨t, List.mem_of_getElem? ht, hrgroup, hrequest⟩ hquiet.2
      · cases Option.mem_toList.mp hrequest

omit [DecidableEq γ] [DecidableEq κ] in
/-- A request changes no document, and it is posted when everybody has the last one. -/
theorem Agreed.ask {net : List (Peer γ δ)} (h : Agreed sig g last net) {i : ℕ} {p p' : Peer γ δ}
    (hp : net[i]? = some p) (hgroup : p'.group = p.group) (hinbox : p'.inbox = p.inbox)
    (hdoc : p'.doc = p.doc) (hnodoc : ∀ d, ¬ DocComing net p.group d) :
    Agreed sig g last (Sharing.place i p' (some (.request p.group)) net) := by
  refine h.place hp hgroup (fun m hm => hinbox ▸ hm) (fun _ hd => nomatch hd) ?_ ?_
  · exact fun _ d hd => Or.inr ⟨hdoc ▸ hd, fun d' hd' => hinbox ▸ hd'⟩
  · intro hr q hq hqgroup d hd
    obtain rfl := Message.request.inj (Option.some.inj hr)
    rcases h.holders q hq hqgroup d hd with hlast | ⟨d', hd'⟩
    · exact hlast
    · exact absurd ⟨q, hq, hqgroup, hd'⟩ (hnodoc d')

/-- A delivery brings the last document, or one that the peer has already, or an answer. -/
theorem Agreed.deliver {net : List (Peer γ δ)} (h : Agreed sig g last net) {i k : ℕ}
    {p : Peer γ δ} {msg : Message γ δ} (hp : net[i]? = some p) (hmsg : p.inbox[k]? = some msg) :
    Agreed sig g last
      (Sharing.place i (receive sig { p with inbox := p.inbox.eraseIdx k } msg).1
        (receive sig { p with inbox := p.inbox.eraseIdx k } msg).2 net) := by
  have hmem : p ∈ net := List.mem_of_getElem? hp
  have hmsg' : msg ∈ p.inbox := List.mem_of_getElem? hmsg
  obtain ⟨hgroup, -, hinbox, hcases⟩ :=
    receive_cases sig { p with inbox := p.inbox.eraseIdx k } msg
  generalize receive sig { p with inbox := p.inbox.eraseIdx k } msg = r at hgroup hinbox hcases
  replace hgroup : r.1.group = p.group := hgroup
  replace hinbox : r.1.inbox = p.inbox.eraseIdx k := hinbox
  have hsub : ∀ m ∈ r.1.inbox, m ∈ p.inbox := by
    rw [hinbox]
    exact fun m hm => List.mem_of_mem_eraseIdx hm
  rcases hcases with ⟨hdoc, hnone, hknown, -⟩ | ⟨d, rfl, hdoc, hnone⟩ |
    ⟨d, rfl, hold, hdoc, hanswer⟩
  · -- A document that is dropped has the signature of the one that the peer has.
    refine h.place hp hgroup hsub (fun _ hd => nomatch hnone.symm.trans hd) ?_
      (fun hr => nomatch hnone.symm.trans hr)
    intro hg d hd
    replace hdoc : p.doc = some d := hdoc.symm.trans hd
    by_cases hdropped : ∃ d', msg = .doc g d'
    · obtain ⟨d', rfl⟩ := hdropped
      have hsig : p.doc.map sig = some (sig d') := hknown d' (by rw [← hg])
      rw [hdoc] at hsig
      refine Or.inl ?_
      rw [h.coming d' ⟨p, hmem, hg, hmsg'⟩]
      exact hsig.symm
    · refine Or.inr ⟨hdoc, fun d' hd' => ?_⟩
      rw [hinbox]
      exact mem_eraseIdx_of_ne hmsg hd' fun heq => hdropped ⟨d', heq.symm⟩
  · refine h.place hp hgroup hsub (fun _ hd => nomatch hnone.symm.trans hd) ?_
      (fun hr => nomatch hnone.symm.trans hr)
    intro hg d' hd'
    obtain rfl : d = d' := Option.some.inj (hdoc.symm.trans hd')
    exact Or.inl (h.coming d ⟨p, hmem, hg, hg ▸ hmsg'⟩)
  · -- The peer answers with what it has, and everybody has the last document.
    have hlast (hg : p.group = g) : last = some (sig d) :=
      h.requests ⟨p, hmem, hg, hg ▸ hmsg'⟩ p hmem hg d hold
    refine h.place hp hgroup hsub ?_ ?_ (fun hr => nomatch hanswer.symm.trans hr)
    · intro d' hd'
      obtain ⟨hg, rfl⟩ := Message.doc.inj (Option.some.inj (hanswer.symm.trans hd'))
      exact hlast hg
    · intro hg d' hd'
      obtain rfl : d = d' := Option.some.inj ((hdoc.trans hold).symm.trans hd')
      exact Or.inl (hlast hg)

/-- The signature of the last document of a group after an action. -/
def lastAfter (sig : δ → κ) (g : γ) (last : Option κ) (net : List (Peer γ δ)) :
    Action γ δ → Option κ
  | .load i d => if (net[i]?).map Peer.group = some g then some (sig d) else last
  | _ => last

/-- One calm step. -/
theorem Agreed.step {net net' : List (Peer γ δ)} {a : Action γ δ} (h : Agreed sig g last net)
    (hcalm : Calm net a) (hstep : step sig net a = some net') :
    Agreed sig g (lastAfter sig g last net a) net' := by
  rcases step_cases hstep with ⟨g', rfl, rfl⟩ | ⟨i, rfl, rfl⟩ | ⟨i, p, p', out, hp, hturn, rfl⟩
  · exact h.enter g'
  · exact h.of_subset fun q hq => List.mem_of_mem_eraseIdx hq
  · cases hturn with
    | load d =>
        rw [lastAfter, hp, Option.map_some]
        by_cases hg : p.group = g
        · rw [if_pos (congrArg some hg)]
          exact agreed_load hp hg (hg ▸ hcalm p hp) d
        · rw [if_neg fun hsome => hg (Option.some.inj hsome)]
          refine h.place hp rfl (fun _ hm => hm) ?_ (fun hgroup => absurd hgroup hg)
            (fun hr => nomatch hr)
          intro d' hd'
          exact absurd (Message.doc.inj (Option.some.inj hd')).1 hg
    | ask => exact h.ask hp rfl rfl rfl (hcalm p hp)
    | wake hnone => exact h.ask hp rfl rfl rfl (hcalm p hp hnone)
    | sleep d hd =>
        exact h.place hp rfl (fun _ hm => hm) (fun _ hd => nomatch hd)
          (fun _ d hd => Or.inr ⟨hd, fun _ hd' => hd'⟩) (fun hr => nomatch hr)
    | deliver k msg hmsg => exact h.deliver hp hmsg

end Step

end ProcessAnalyzer.Lib.Sharing
