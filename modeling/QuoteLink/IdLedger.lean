import Mathlib.Algebra.Order.Group.Multiset
import Mathlib.Logic.Function.Basic
import Mathlib.Logic.Relation

/-- Requests in flight: not sent yet, sent, and answered with the answer still
to be routed. `registering` is the request sent last, while it is not entered
in the `table` that maps the id of an answer to the one who waits for it. -/
structure IdLedger (ι κ γ : Type) where
  unsent : Multiset κ
  sent : Multiset κ
  arrived : Multiset κ
  registering : Option κ
  table : ι → Option γ

namespace IdLedger

variable {ι κ γ : Type}

/-- The ids in flight. -/
def ids (id : κ → ι) (L : IdLedger ι κ γ) : Multiset ι := (L.unsent + L.sent + L.arrived).map id

/-- What can happen to the requests in flight. An id is drawn while no other
request has it; one that will not be registered needs an unused table slot,
and so does a request whose registration is given up. -/
inductive Move [DecidableEq ι] (id : κ → ι) (owner : κ → Option γ) (L : IdLedger ι κ γ) : IdLedger ι κ γ → Prop
  | forget {L' : IdLedger ι κ γ} (hunsent : L'.unsent ≤ L.unsent) (hsent : L'.sent ≤ L.sent)
    (harrived : L'.arrived ≤ L.arrived) (hreg : L'.registering = L.registering)
    (htable : L'.table = L.table) : Move id owner L L'
  | draw (t : κ) (hfree : id t ∉ L.ids id) : Move id owner L { L with unsent := t ::ₘ L.unsent }
  | drawSent (t : κ) (hfree : id t ∉ L.ids id) (hslot : L.table (id t) = none)
    (hreg : L.registering = none) : Move id owner L { L with sent := t ::ₘ L.sent }
  | send (t : κ) (rest : Multiset κ) (hunsent : L.unsent = t ::ₘ rest) (hreg : L.registering = none) :
    Move id owner L { L with unsent := rest, sent := t ::ₘ L.sent, registering := some t }
  | register (t : κ) (hreg : L.registering = some t) (c : γ) (howner : owner t = some c) :
    Move id owner L { L with registering := none, table := Function.update L.table (id t) (some c) }
  | giveUp (t : κ) (hreg : L.registering = some t) (hslot : L.table (id t) = none) :
    Move id owner L { L with registering := none }
  | arrive (t : κ) (rest : Multiset κ) (hsent : L.sent = t ::ₘ rest) (hreg : L.registering = none) :
    Move id owner L { L with sent := rest, arrived := t ::ₘ L.arrived }
  | consume (t : κ) (rest : Multiset κ) (harrived : L.arrived = t ::ₘ rest) :
    Move id owner L { L with arrived := rest, table := Function.update L.table (id t) none }

/-- A move that draws no id but `next`, enters every request with an owner in the
table and gives up no registration. -/
inductive OrderlyMove [DecidableEq ι] (id : κ → ι) (owner : κ → Option γ) (next : Option ι)
    (L : IdLedger ι κ γ) : IdLedger ι κ γ → Prop
  | forget {L' : IdLedger ι κ γ} (hunsent : L'.unsent ≤ L.unsent) (hsent : L'.sent ≤ L.sent)
    (harrived : L'.arrived ≤ L.arrived) (hreg : L'.registering = L.registering)
    (htable : L'.table = L.table) : OrderlyMove id owner next L L'
  | draw (t : κ) (hnext : next = some (id t)) (hfree : id t ∉ L.ids id) :
    OrderlyMove id owner next L { L with unsent := t ::ₘ L.unsent }
  | drawSent (t : κ) (hnext : next = some (id t)) (howner : owner t = none) (hfree : id t ∉ L.ids id)
    (hslot : L.table (id t) = none) (hreg : L.registering = none) :
    OrderlyMove id owner next L { L with sent := t ::ₘ L.sent }
  | send (t : κ) (rest : Multiset κ) (hunsent : L.unsent = t ::ₘ rest) (hreg : L.registering = none) :
    OrderlyMove id owner next L { L with unsent := rest, sent := t ::ₘ L.sent, registering := some t }
  | register (t : κ) (hreg : L.registering = some t) (c : γ) (howner : owner t = some c) :
    OrderlyMove id owner next L
      { L with registering := none, table := Function.update L.table (id t) (some c) }
  | arrive (t : κ) (rest : Multiset κ) (hsent : L.sent = t ::ₘ rest) (hreg : L.registering = none) :
    OrderlyMove id owner next L { L with sent := rest, arrived := t ::ₘ L.arrived }
  | consume (t : κ) (rest : Multiset κ) (harrived : L.arrived = t ::ₘ rest) :
    OrderlyMove id owner next L
      { L with arrived := rest, table := Function.update L.table (id t) none }

/-- A table entry under the request's id belongs to the request's owner. -/
def Routed (id : κ → ι) (owner : κ → Option γ) (L : IdLedger ι κ γ) (t : κ) : Prop :=
  ∀ c, L.table (id t) = some c → owner t = some c

structure Sound (id : κ → ι) (owner : κ → Option γ) (L : IdLedger ι κ γ) : Prop where
  nodup : (L.ids id).Nodup
  sent : ∀ t ∈ L.sent, L.registering = some t ∨ L.Routed id owner t
  arrived : ∀ t ∈ L.arrived, L.Routed id owner t
  registering : ∀ q, L.registering = some q →
    (∀ t ∈ L.sent, id t = id q → t = q) ∧ ∀ t ∈ L.arrived, id t ≠ id q

variable {id : κ → ι} {owner : κ → Option γ} {L L' : IdLedger ι κ γ} {t : κ}

/-- Sending and arriving move a request on, and nothing else. -/
theorem contents_send {rest : Multiset κ} (hunsent : L.unsent = t ::ₘ rest) :
    rest + t ::ₘ L.sent + L.arrived = L.unsent + L.sent + L.arrived := by
  simp only [hunsent, Multiset.add_cons, Multiset.cons_add]

theorem contents_arrive {rest : Multiset κ} (hsent : L.sent = t ::ₘ rest) :
    L.unsent + rest + t ::ₘ L.arrived = L.unsent + L.sent + L.arrived := by
  simp only [hsent, Multiset.add_cons, Multiset.cons_add]

theorem contents_consume {rest : Multiset κ} (harrived : L.arrived = t ::ₘ rest) :
    L.unsent + L.sent + rest ≤ L.unsent + L.sent + L.arrived :=
  add_le_add le_rfl (harrived ▸ Multiset.le_cons_self rest t)

/-- Other requests in flight have other ids. -/
theorem Sound.id_ne (h : L.Sound id owner) {others : Multiset κ}
    (hids : L.ids id = id t ::ₘ others.map id) {q : κ} (hq : q ∈ others) : id q ≠ id t := by
  have hn := h.nodup
  rw [hids] at hn
  intro heq
  apply (Multiset.nodup_cons.mp hn).1
  rw [← heq]
  exact Multiset.mem_map_of_mem id hq

theorem Sound.id_ne_of_unsent (h : L.Sound id owner) {rest : Multiset κ}
    (hunsent : L.unsent = t ::ₘ rest) {q : κ} (hq : q ∈ L.sent ∨ q ∈ L.arrived) : id q ≠ id t := by
  have hids : L.ids id = id t ::ₘ (rest + L.sent + L.arrived).map id := by
    simp only [ids, hunsent, Multiset.cons_add, Multiset.map_cons]
  apply h.id_ne hids
  simp only [Multiset.mem_add]
  rcases hq with hsent | harrived
  · exact Or.inl (Or.inr hsent)
  · exact Or.inr harrived

theorem Sound.id_ne_of_arrived (h : L.Sound id owner) {rest : Multiset κ}
    (harrived : L.arrived = t ::ₘ rest) {q : κ} (hq : q ∈ L.sent ∨ q ∈ rest) : id q ≠ id t := by
  have hids : L.ids id = id t ::ₘ (L.unsent + L.sent + rest).map id := by
    simp only [ids, harrived, Multiset.add_cons, Multiset.map_cons]
  apply h.id_ne hids
  simp only [Multiset.mem_add]
  rcases hq with hsent | hrest
  · exact Or.inl (Or.inr hsent)
  · exact Or.inr hrest

theorem Sound.routed (h : L.Sound id owner) (hreg : L.registering = none) :
    ∀ q ∈ L.sent, L.Routed id owner q := by
  intro q hq
  rcases h.sent q hq with hold | hold
  · rw [hreg] at hold
    cases hold
  · exact hold

theorem Sound.move [DecidableEq ι] (h : L.Sound id owner) (hm : Move id owner L L') : L'.Sound id owner := by
  cases hm with
  | forget hunsent hsent harrived hreg htable =>
    have hle : L'.unsent + L'.sent + L'.arrived ≤ L.unsent + L.sent + L.arrived :=
      add_le_add (add_le_add hunsent hsent) harrived
    refine ⟨Multiset.nodup_of_le (Multiset.map_le_map hle) h.nodup, ?_, ?_, ?_⟩
    · intro t ht
      have hold := h.sent t (Multiset.mem_of_le hsent ht)
      rwa [Routed, hreg, htable]
    · intro t ht
      have hold := h.arrived t (Multiset.mem_of_le harrived ht)
      rwa [Routed, htable]
    · intro q hq
      obtain ⟨hs, ha⟩ := h.registering q (hreg ▸ hq)
      exact ⟨fun t ht => hs t (Multiset.mem_of_le hsent ht),
        fun t ht => ha t (Multiset.mem_of_le harrived ht)⟩
  | draw t hfree =>
    have hids : ids id { L with unsent := t ::ₘ L.unsent } = id t ::ₘ L.ids id := by
      simp only [ids, Multiset.cons_add, Multiset.map_cons]
    exact ⟨hids ▸ Multiset.nodup_cons.mpr ⟨hfree, h.nodup⟩, h.sent, h.arrived, h.registering⟩
  | drawSent t hfree hslot hreg =>
    have hids : ids id { L with sent := t ::ₘ L.sent } = id t ::ₘ L.ids id := by
      simp only [ids, Multiset.add_cons, Multiset.cons_add, Multiset.map_cons]
    refine ⟨hids ▸ Multiset.nodup_cons.mpr ⟨hfree, h.nodup⟩, ?_, h.arrived, ?_⟩
    · intro q hq
      rcases Multiset.mem_cons.mp hq with rfl | hq
      · right
        intro c hc
        rw [hslot] at hc
        cases hc
      · exact h.sent q hq
    · intro q hq
      rw [hreg] at hq
      cases hq
  | send t rest hunsent hreg =>
    have hids : ids id { L with unsent := rest, sent := t ::ₘ L.sent, registering := some t } =
        L.ids id := congrArg (Multiset.map id) (contents_send hunsent)
    refine ⟨hids ▸ h.nodup, ?_, h.arrived, ?_⟩
    · intro q hq
      rcases Multiset.mem_cons.mp hq with rfl | hq
      · exact Or.inl rfl
      · exact Or.inr (h.routed hreg q hq)
    · intro q hq
      cases hq
      refine ⟨?_, fun q hq => h.id_ne_of_unsent hunsent (Or.inr hq)⟩
      intro q hq heq
      rcases Multiset.mem_cons.mp hq with rfl | hq
      · rfl
      · exact absurd heq (h.id_ne_of_unsent hunsent (Or.inl hq))
  | register t hreg c howner =>
    obtain ⟨hs, ha⟩ := h.registering t hreg
    refine ⟨h.nodup, ?_, ?_, fun q hq => by cases hq⟩
    · intro q hq
      right
      intro d hd
      by_cases heq : id q = id t
      · have hdc : some c = some d := by simpa only [heq, Function.update_self] using hd
        rw [hs q hq heq, howner, hdc]
      · have hd' : L.table (id q) = some d := by simpa only [Function.update_of_ne heq] using hd
        rcases h.sent q hq with hold | hold
        · rw [hreg] at hold
          cases hold
          exact absurd rfl heq
        · exact hold d hd'
    · intro q hq d hd
      have hd' : L.table (id q) = some d := by simpa only [Function.update_of_ne (ha q hq)] using hd
      exact h.arrived q hq d hd'
  | giveUp t hreg hslot =>
    refine ⟨h.nodup, ?_, h.arrived, fun q hq => by cases hq⟩
    intro q hq
    right
    rcases h.sent q hq with hold | hold
    · rw [hreg] at hold
      cases hold
      intro c hc
      have hnone : L.table (id t) = some c := hc
      rw [hslot] at hnone
      cases hnone
    · exact hold
  | arrive t rest hsent hreg =>
    have hids : ids id { L with sent := rest, arrived := t ::ₘ L.arrived } = L.ids id :=
      congrArg (Multiset.map id) (contents_arrive hsent)
    have hrouted := h.routed hreg
    refine ⟨hids ▸ h.nodup, ?_, ?_, ?_⟩
    · intro q hq
      exact Or.inr (hrouted q (hsent ▸ Multiset.mem_cons_of_mem hq))
    · intro q hq
      rcases Multiset.mem_cons.mp hq with rfl | hq
      · exact hrouted q (hsent ▸ Multiset.mem_cons_self q rest)
      · exact h.arrived q hq
    · intro q hq
      have hnone : L.registering = some q := hq
      rw [hreg] at hnone
      cases hnone
  | consume t rest harrived =>
    have hle : L.unsent + L.sent + rest ≤ L.unsent + L.sent + L.arrived := contents_consume harrived
    refine ⟨Multiset.nodup_of_le (Multiset.map_le_map hle) h.nodup, ?_, ?_, ?_⟩
    · intro q hq
      have hne := h.id_ne_of_arrived harrived (Or.inl hq)
      refine (h.sent q hq).imp (fun hold => hold) fun hold c hc => hold c ?_
      simpa only [Function.update_of_ne hne] using hc
    · intro q hq c hc
      have hne := h.id_ne_of_arrived harrived (Or.inr hq)
      refine h.arrived q (harrived ▸ Multiset.mem_cons_of_mem hq) c ?_
      simpa only [Function.update_of_ne hne] using hc
    · intro q hq
      obtain ⟨hs, ha⟩ := h.registering q hq
      exact ⟨hs, fun q hq => ha q (harrived ▸ Multiset.mem_cons_of_mem hq)⟩

theorem Sound.moves [DecidableEq ι] (h : L.Sound id owner)
    (hm : Relation.ReflTransGen (Move id owner) L L') : L'.Sound id owner := by
  induction hm with
  | refl => exact h
  | tail _ hstep ih => exact ih.move hstep

theorem OrderlyMove.move [DecidableEq ι] {next : Option ι} (h : OrderlyMove id owner next L L') :
    Move id owner L L' := by
  cases h with
  | forget hunsent hsent harrived hreg htable => exact .forget hunsent hsent harrived hreg htable
  | draw t _ hfree => exact .draw t hfree
  | drawSent t _ _ hfree hslot hreg => exact .drawSent t hfree hslot hreg
  | send t rest hunsent hreg => exact .send t rest hunsent hreg
  | register t hreg c howner => exact .register t hreg c howner
  | arrive t rest hsent hreg => exact .arrive t rest hsent hreg
  | consume t rest harrived => exact .consume t rest harrived

/-- The answer to a request with an owner finds the owner in the table. -/
structure Registered (id : κ → ι) (owner : κ → Option γ) (L : IdLedger ι κ γ) : Prop where
  sent : ∀ t ∈ L.sent, ∀ c, owner t = some c → L.registering = some t ∨ L.table (id t) = some c
  arrived : ∀ t ∈ L.arrived, ∀ c, owner t = some c → L.table (id t) = some c

theorem Registered.entered (h : L.Registered id owner) (hreg : L.registering = none) {q : κ}
    (hq : q ∈ L.sent) {c : γ} (hc : owner q = some c) : L.table (id q) = some c := by
  rcases h.sent q hq c hc with hold | hold
  · rw [hreg] at hold
    cases hold
  · exact hold

theorem Registered.move [DecidableEq ι] {next : Option ι} (h : L.Registered id owner)
    (hsound : L.Sound id owner) (hm : OrderlyMove id owner next L L') : L'.Registered id owner := by
  cases hm with
  | forget hunsent hsent harrived hreg htable =>
    refine ⟨?_, ?_⟩
    · intro q hq c hc
      rw [hreg, htable]
      exact h.sent q (Multiset.mem_of_le hsent hq) c hc
    · intro q hq c hc
      rw [htable]
      exact h.arrived q (Multiset.mem_of_le harrived hq) c hc
  | draw t hnext hfree => exact ⟨h.sent, h.arrived⟩
  | drawSent t hnext howner hfree hslot hreg =>
    refine ⟨?_, h.arrived⟩
    intro q hq c hc
    rcases Multiset.mem_cons.mp hq with rfl | hq
    · rw [howner] at hc
      cases hc
    · exact h.sent q hq c hc
  | send t rest hunsent hreg =>
    refine ⟨?_, h.arrived⟩
    intro q hq c hc
    rcases Multiset.mem_cons.mp hq with rfl | hq
    · exact Or.inl rfl
    · exact Or.inr (h.entered hreg hq hc)
  | register t hreg d howner =>
    obtain ⟨hs, ha⟩ := hsound.registering t hreg
    refine ⟨?_, ?_⟩
    · intro q hq c hc
      right
      by_cases heq : id q = id t
      · rw [hs q hq heq, howner] at hc
        simp only [heq, Function.update_self, hc]
      · rcases h.sent q hq c hc with hold | hold
        · rw [hreg] at hold
          cases hold
          exact absurd rfl heq
        · simpa only [Function.update_of_ne heq] using hold
    · intro q hq c hc
      have hold := h.arrived q hq c hc
      simpa only [Function.update_of_ne (ha q hq)] using hold
  | arrive t rest hsent hreg =>
    refine ⟨?_, ?_⟩
    · intro q hq c hc
      exact h.sent q (hsent ▸ Multiset.mem_cons_of_mem hq) c hc
    · intro q hq c hc
      rcases Multiset.mem_cons.mp hq with rfl | hq
      · exact h.entered hreg (hsent ▸ Multiset.mem_cons_self q rest) hc
      · exact h.arrived q hq c hc
  | consume t rest harrived =>
    refine ⟨?_, ?_⟩
    · intro q hq c hc
      have hne := hsound.id_ne_of_arrived harrived (Or.inl hq)
      simpa only [Function.update_of_ne hne] using h.sent q hq c hc
    · intro q hq c hc
      have hne := hsound.id_ne_of_arrived harrived (Or.inr hq)
      have hold := h.arrived q (harrived ▸ Multiset.mem_cons_of_mem hq) c hc
      simpa only [Function.update_of_ne hne] using hold

/-- All ids in flight or in the table satisfy `p`. -/
structure Within (id : κ → ι) (p : ι → Prop) (L : IdLedger ι κ γ) : Prop where
  ids : ∀ t ∈ L.unsent + L.sent + L.arrived, p (id t)
  registering : ∀ t, L.registering = some t → p (id t)
  table : ∀ i c, L.table i = some c → p i

theorem Within.mono {p q : ι → Prop} (h : L.Within id p) (hpq : ∀ i, p i → q i) : L.Within id q :=
  ⟨fun t ht => hpq _ (h.ids t ht), fun t ht => hpq _ (h.registering t ht),
    fun i c hc => hpq i (h.table i c hc)⟩

theorem Within.move [DecidableEq ι] {next : Option ι} {p : ι → Prop} (h : L.Within id p)
    (hnext : ∀ i, next = some i → p i) (hm : OrderlyMove id owner next L L') : L'.Within id p := by
  cases hm with
  | forget hunsent hsent harrived hreg htable =>
    refine ⟨?_, hreg ▸ h.registering, htable ▸ h.table⟩
    intro q hq
    exact h.ids q (Multiset.mem_of_le (add_le_add (add_le_add hunsent hsent) harrived) hq)
  | draw t hdraw hfree =>
    refine ⟨?_, h.registering, h.table⟩
    intro q hq
    have hcons : t ::ₘ L.unsent + L.sent + L.arrived = t ::ₘ (L.unsent + L.sent + L.arrived) := by
      rw [Multiset.cons_add, Multiset.cons_add]
    rcases Multiset.mem_cons.mp (hcons ▸ hq) with rfl | hold
    · exact hnext _ hdraw
    · exact h.ids q hold
  | drawSent t hdraw howner hfree hslot hreg =>
    refine ⟨?_, h.registering, h.table⟩
    intro q hq
    have hcons : L.unsent + t ::ₘ L.sent + L.arrived = t ::ₘ (L.unsent + L.sent + L.arrived) := by
      rw [Multiset.add_cons, Multiset.cons_add]
    rcases Multiset.mem_cons.mp (hcons ▸ hq) with rfl | hold
    · exact hnext _ hdraw
    · exact h.ids q hold
  | send t rest hunsent hreg =>
    refine ⟨?_, ?_, h.table⟩
    · intro q hq
      exact h.ids q (contents_send hunsent ▸ hq)
    · intro q hq
      cases hq
      refine h.ids t ?_
      rw [hunsent, Multiset.cons_add, Multiset.cons_add]
      exact Multiset.mem_cons_self t _
  | register t hreg c howner =>
    refine ⟨h.ids, ?_, ?_⟩
    · intro q hq
      cases hq
    · intro i d hd
      by_cases heq : i = id t
      · rw [heq]
        exact h.registering t hreg
      · simp only [Function.update_of_ne heq] at hd
        exact h.table i d hd
  | arrive t rest hsent hreg =>
    refine ⟨?_, h.registering, h.table⟩
    intro q hq
    exact h.ids q (contents_arrive hsent ▸ hq)
  | consume t rest harrived =>
    refine ⟨?_, h.registering, ?_⟩
    · intro q hq
      exact h.ids q (Multiset.mem_of_le (contents_consume harrived) hq)
    · intro i d hd
      by_cases heq : i = id t
      · simp only [heq, Function.update_self] at hd
        cases hd
      · simp only [Function.update_of_ne heq] at hd
        exact h.table i d hd

theorem Within.moves [DecidableEq ι] {next : Option ι} {p : ι → Prop} (h : L.Within id p)
    (hnext : ∀ i, next = some i → p i)
    (hm : Relation.ReflTransGen (OrderlyMove id owner next) L L') : L'.Within id p := by
  induction hm with
  | refl => exact h
  | tail _ hstep ih => exact ih.move hnext hstep

theorem Registered.moves [DecidableEq ι] {next : Option ι} (h : L.Registered id owner)
    (hsound : L.Sound id owner) (hm : Relation.ReflTransGen (OrderlyMove id owner next) L L') :
    L'.Registered id owner := by
  have hboth : L'.Sound id owner ∧ L'.Registered id owner := by
    induction hm with
    | refl => exact ⟨hsound, h⟩
    | tail _ hstep ih => exact ⟨ih.1.move hstep.move, ih.2.move ih.1 hstep⟩
  exact hboth.2

section Collect

variable {α : Type} (f : α → Option κ)

/-- The requests among the items of a queue. -/
def collect (l : List α) : Multiset κ := (l.filterMap f : List κ)

@[simp] theorem collect_nil : collect f [] = 0 := rfl

@[simp] theorem collect_append (l m : List α) : collect f (l ++ m) = collect f l + collect f m := by
  simp only [collect, List.filterMap_append, Multiset.coe_add]

theorem collect_cons (x : α) (l : List α) : collect f (x :: l) = collect f [x] + collect f l :=
  collect_append f [x] l

theorem collect_singleton (x : α) : collect f [x] = ((f x).toList : Multiset κ) := by
  cases h : f x <;> simp [collect, h]

/-- Two items that stand for the same request count the same. -/
theorem collect_singleton_congr {β : Type} {g : β → Option κ} {x : α} {y : β} (h : f x = g y) :
    collect f [x] = collect g [y] := by
  rw [collect_singleton, collect_singleton, h]

/-- An item taken out of the middle of a queue. -/
theorem collect_eraseIdx {l : List α} {k : Nat} {x : α} (h : l[k]? = some x) :
    collect f l = collect f [x] + collect f (l.eraseIdx k) := by
  obtain ⟨hk, rfl⟩ := List.getElem?_eq_some_iff.mp h
  have hperm : (l[k] :: l.eraseIdx k).Perm l := List.getElem_cons_eraseIdx_perm hk
  rw [← collect_cons]
  exact Multiset.coe_eq_coe.mpr (hperm.symm.filterMap f)

end Collect

end IdLedger
