import Mathlib.Data.List.Dedup
import Mathlib.Data.List.Duplicate
import Mathlib.Data.List.GetD
import Mathlib.Order.Bounds.Basic
import LanePadding.Proofs.Described

/-!
# The order of definitions

Definitions are built in the order of `Description.order`, in rounds.  What a round takes is told by
the chains of references below a definition: the round with number `t` takes those with a chain of
length `t` below them and none that is longer.  So the order is by depth, and by declaration among
definitions of the same depth, and what no round takes are the definitions with chains of any
length, that is, those that lead to a cycle.

The rounds can also be found by counting.  Each definition knows how many others it waits for; when
a definition is taken, the counts of its readers go down, and those that wait for nothing any more
form the next round.  Nothing depends on the order in which readers are visited
(`Description.Round.countsDown`).

## What is here

* `Description.Reads`, `Description.Chain` — references and chains of them.
* `Description.forall_chain_iff` — **chains of any length lead to a cycle.**
* `Description.Round` — the invariant: what was taken before a round, and what is left.
* `CountsDown` — the rounds by counting.
* `Description.order_by_depth` — when there is an order, which one, what is reported otherwise, and
  that counting gives the same.
-/

set_option autoImplicit false

namespace LanePadding

open Relation

namespace Description

/-- Names can be resolved: they are valid, no two definitions have the same, and every reference is
to one of them. -/
structure Resolves (d : Description) : Prop where
  valid : ∀ n ∈ d.nodes, n.hasValidName = true
  distinct : (d.nodes.map NodeDef.name).Nodup
  known : ∀ n ∈ d.nodes, ∀ x ∈ n.references, x ∈ d.nodes.map NodeDef.name

instance (d : Description) : Decidable d.Resolves :=
  decidable_of_iff ((∀ n ∈ d.nodes, n.hasValidName = true) ∧ (d.nodes.map NodeDef.name).Nodup ∧
      ∀ n ∈ d.nodes, ∀ x ∈ n.references, x ∈ d.nodes.map NodeDef.name)
    ⟨fun h => ⟨h.1, h.2.1, h.2.2⟩, fun h => ⟨h.valid, h.distinct, h.known⟩⟩

/-- The definition at position `i` refers to the one at position `k`. -/
def Reads (d : Description) (i k : Nat) : Prop :=
  k < d.nodes.length ∧ (d.nodes.getD k .blank).name ∈ (d.nodes.getD i .blank).references

/-- There is a chain of `m` references below the definition at position `i`. -/
def Chain (d : Description) (i m : Nat) : Prop :=
  ∃ below : List Nat, below.length = m ∧ (i :: below).IsChain d.Reads

variable {d : Description}

/-! ## Chains of references -/

theorem Reads.lt_length {i k : Nat} (h : d.Reads i k) : i < d.nodes.length := by
  by_contra hge
  have hblank : d.nodes.getD i .blank = .blank := List.getD_eq_default _ _ (Nat.le_of_not_lt hge)
  have hmem := h.2
  rw [hblank] at hmem
  exact absurd hmem List.not_mem_nil

theorem chain_zero (i : Nat) : d.Chain i 0 := ⟨[], rfl, .singleton i⟩

theorem chain_succ {i m : Nat} : d.Chain i (m + 1) ↔ ∃ k, d.Reads i k ∧ d.Chain k m := by
  constructor
  · rintro ⟨below, hlength, hchain⟩
    obtain ⟨k, rest, rfl⟩ := List.exists_cons_of_length_eq_add_one hlength
    obtain ⟨hread, hrest⟩ := List.isChain_cons_cons.1 hchain
    exact ⟨k, hread, rest, by simpa using hlength, hrest⟩
  · rintro ⟨k, hread, rest, hlength, hrest⟩
    exact ⟨k :: rest, by simpa using hlength, List.isChain_cons_cons.2 ⟨hread, hrest⟩⟩

theorem not_chain_succ {i m : Nat} : ¬d.Chain i (m + 1) ↔ ∀ k, d.Reads i k → ¬d.Chain k m := by
  rw [chain_succ]
  push Not
  rfl

theorem Chain.pred {i m : Nat} (h : d.Chain i (m + 1)) : d.Chain i m := by
  induction m generalizing i with
  | zero => exact chain_zero i
  | succ m ih =>
    obtain ⟨k, hread, hk⟩ := chain_succ.1 h
    exact chain_succ.2 ⟨k, hread, ih hk⟩

theorem Chain.mono {i m m' : Nat} (h : d.Chain i m') (hle : m ≤ m') : d.Chain i m := by
  induction hle with
  | refl => exact h
  | step _ ih => exact ih h.pred

/-- The longest chain below a definition has length `t`. -/
theorem isGreatest_chain {i t : Nat} :
    IsGreatest {m | d.Chain i m} t ↔ d.Chain i t ∧ ¬d.Chain i (t + 1) := by
  constructor
  · rintro ⟨hchain, hbound⟩
    exact ⟨hchain, fun hlonger => Nat.not_succ_le_self t (hbound hlonger)⟩
  · rintro ⟨hchain, hnot⟩
    exact ⟨hchain, fun m hm => Nat.le_of_not_lt fun hlt => hnot (Chain.mono hm hlt)⟩

theorem exists_isGreatest_chain {i m : Nat} (h : ¬d.Chain i m) :
    ∃ t, IsGreatest {m | d.Chain i m} t := by
  induction m with
  | zero => exact absurd (chain_zero i) h
  | succ m ih =>
    by_cases hm : d.Chain i m
    · exact ⟨m, isGreatest_chain.2 ⟨hm, h⟩⟩
    · exact ih hm

/-- Definitions that lead to a cycle have chains of any length. -/
theorem chain_of_cycle {i k : Nat} (hpath : ReflTransGen d.Reads i k)
    (hcycle : TransGen d.Reads k k) (m : Nat) :
    d.Chain i m := by
  induction m generalizing i with
  | zero => exact chain_zero i
  | succ m ih =>
    obtain ⟨j, hread, hrest⟩ := TransGen.head'_iff.1 (TransGen.trans_right hpath hcycle)
    exact chain_succ.2 ⟨j, hread, ih hrest⟩

/-- **Chains of any length lead to a cycle**: one of them is longer than there are definitions. -/
theorem forall_chain_iff {i : Nat} :
    (∀ m, d.Chain i m) ↔ ∃ k, ReflTransGen d.Reads i k ∧ TransGen d.Reads k k := by
  constructor
  · intro hall
    obtain ⟨below, hlength, hchain⟩ := hall (d.nodes.length + 1)
    have hpair : (i :: below).Pairwise (TransGen d.Reads) :=
      (hchain.imp fun _ _ => TransGen.single).pairwise
    have hlt : ∀ k ∈ below, k < d.nodes.length := by
      intro k hk
      obtain ⟨j, -, hread⟩ := TransGen.tail'_iff.1 (List.rel_of_pairwise_cons hpair hk)
      exact hread.1
    have hrepeats : ¬below.Nodup := by
      intro hnodup
      have hsub := List.subperm_of_subset hnodup fun k hk => List.mem_range.2 (hlt k hk)
      have hle := hsub.length_le
      rw [List.length_range] at hle
      omega
    obtain ⟨k, hk⟩ := List.exists_duplicate_iff_not_nodup.2 hrepeats
    have htwice : [k, k].Pairwise (TransGen d.Reads) :=
      (List.pairwise_cons.1 hpair).2.sublist (List.duplicate_iff_sublist.1 hk)
    exact ⟨k, (List.rel_of_pairwise_cons hpair hk.mem).to_reflTransGen,
      List.rel_of_pairwise_cons htwice (List.mem_singleton.2 rfl)⟩
  · rintro ⟨k, hpath, hcycle⟩ m
    exact chain_of_cycle hpath hcycle m

/-- Without cycles every definition has a depth. -/
theorem exists_depth (h : ∀ i, ¬TransGen d.Reads i i) (i : Nat) :
    ∃ t, IsGreatest {m | d.Chain i m} t := by
  by_contra hnone
  have hall : ∀ m, d.Chain i m := fun m => by
    by_contra hm
    exact hnone (exists_isGreatest_chain hm)
  obtain ⟨k, -, hcycle⟩ := forall_chain_iff.1 hall
  exact h k hcycle

/-! ## Rounds -/

namespace Resolves

theorem exists_reads (hd : d.Resolves) {i : Nat} {x : String}
    (hx : x ∈ (d.nodes.getD i .blank).references) :
    ∃ k, d.Reads i k ∧ (d.nodes.getD k .blank).name = x := by
  have hi : d.nodes.getD i .blank ∈ d.nodes := by
    by_contra hnot
    rw [List.getD_eq_default] at hx
    · exact absurd hx List.not_mem_nil
    · by_contra hlt
      exact hnot (by simp [Nat.lt_of_not_le hlt])
  obtain ⟨n, hn, hname⟩ := List.mem_map.1 (hd.known _ hi x hx)
  obtain ⟨k, hk, rfl⟩ := List.getElem_of_mem hn
  have hname' : (d.nodes.getD k .blank).name = x := by simpa [hk] using hname
  exact ⟨k, ⟨hk, by rwa [hname']⟩, hname'⟩

theorem eq_of_name_eq (hd : d.Resolves) {i k : Nat} (hi : i < d.nodes.length)
    (hk : k < d.nodes.length) (h : (d.nodes.getD i .blank).name = (d.nodes.getD k .blank).name) :
    i = k := by
  have hi' : i < (d.nodes.map NodeDef.name).length := by simpa using hi
  have hk' : k < (d.nodes.map NodeDef.name).length := by simpa using hk
  have hsame : (d.nodes.map NodeDef.name)[i] = (d.nodes.map NodeDef.name)[k] := by
    simpa [hi, hk] using h
  exact hd.distinct.getElem_inj_iff.1 hsame

end Resolves

/-- Before the round `t`, the definitions without chains of length `t` are taken, and the others are
left. -/
structure Round (d : Description) (t : Nat) (taken : List String) (left : List Nat) : Prop where
  taken : ∀ i < d.nodes.length, (d.nodes.getD i .blank).name ∈ taken ↔ ¬d.Chain i t
  sorted : left.Pairwise (· < ·)
  left : ∀ i, i ∈ left ↔ i < d.nodes.length ∧ d.Chain i t

theorem round_zero (d : Description) : d.Round 0 [] (List.range d.nodes.length) where
  taken i _ := by simp [chain_zero]
  sorted := List.pairwise_lt_range
  left i := by simp [chain_zero]

namespace Round

variable {t : Nat} {taken : List String} {left : List Nat}

/-- All references of a definition are taken if no chain below it reaches the round. -/
theorem forall_references (h : d.Round t taken left) (hd : d.Resolves) {i : Nat} :
    (∀ x ∈ (d.nodes.getD i .blank).references, x ∈ taken) ↔ ¬d.Chain i (t + 1) := by
  rw [not_chain_succ]
  constructor
  · intro hall k hread
    exact (h.taken k hread.1).1 (hall _ hread.2)
  · intro hall x hx
    obtain ⟨k, hread, rfl⟩ := hd.exists_reads hx
    exact (h.taken k hread.1).2 (hall k hread)

/-- **A round takes the definitions of its depth.** -/
theorem mem_readyNow (h : d.Round t taken left) (hd : d.Resolves) {i : Nat} :
    i ∈ readyNow d.nodes taken left ↔ i < d.nodes.length ∧ IsGreatest {m | d.Chain i m} t := by
  rw [readyNow, List.mem_filter, h.left, List.all_eq_true, isGreatest_chain,
    ← h.forall_references hd]
  simp only [decide_eq_true_eq, and_assoc]

theorem mem_notReady (h : d.Round t taken left) (hd : d.Resolves) {i : Nat} :
    i ∈ notReady d.nodes taken left ↔ i < d.nodes.length ∧ d.Chain i (t + 1) := by
  have hall : (d.nodes.getD i .blank).references.all (· ∈ taken) = true ↔ ¬d.Chain i (t + 1) := by
    rw [← h.forall_references hd, List.all_eq_true]
    simp only [decide_eq_true_eq]
  rw [notReady, List.mem_filter, h.left, Bool.not_eq_true', ← Bool.not_eq_true, hall, not_not]
  exact ⟨fun hi => ⟨hi.1.1, hi.2⟩, fun hi => ⟨⟨hi.1, hi.2.pred⟩, hi.2⟩⟩

/-- What a round takes is taken before the next one. -/
theorem next (h : d.Round t taken left) (hd : d.Resolves) :
    d.Round (t + 1) ((readyNow d.nodes taken left).map
      (fun i => (d.nodes.getD i .blank).name) ++ taken) (notReady d.nodes taken left) where
  taken i hi := by
    rw [List.mem_append, h.taken i hi, List.mem_map]
    constructor
    · rintro (⟨k, hk, hname⟩ | hnot)
      · obtain ⟨hlt, hdepth⟩ := (h.mem_readyNow hd).1 hk
        obtain rfl := hd.eq_of_name_eq hlt hi hname
        exact (isGreatest_chain.1 hdepth).2
      · exact fun hchain => hnot hchain.pred
    · intro hnot
      by_cases hchain : d.Chain i t
      · exact .inl ⟨i, (h.mem_readyNow hd).2 ⟨hi, isGreatest_chain.2 ⟨hchain, hnot⟩⟩, rfl⟩
      · exact .inr hchain
  sorted := h.sorted.filter _
  left _ := h.mem_notReady hd

/-- If a round takes nothing, what is left has chains of any length. -/
theorem chain_of_readyNow_eq_nil (h : d.Round t taken left) (hd : d.Resolves)
    (hnone : readyNow d.nodes taken left = []) {i : Nat} (hi : i ∈ left) (m : Nat) :
    d.Chain i m := by
  -- one chain more can be followed from each definition with a chain of length `t`
  have hmore : ∀ k, k < d.nodes.length → d.Chain k t → d.Chain k (t + 1) := by
    intro k hk hchain
    by_contra hnot
    have hready := (h.mem_readyNow hd).2 ⟨hk, isGreatest_chain.2 ⟨hchain, hnot⟩⟩
    rw [hnone] at hready
    exact absurd hready List.not_mem_nil
  have hupward : ∀ s k, k < d.nodes.length → d.Chain k t → d.Chain k (t + s) := by
    intro s
    induction s with
    | zero => exact fun k _ hchain => hchain
    | succ s ih =>
      intro k hk hchain
      obtain ⟨j, hread, hj⟩ := chain_succ.1 (hmore k hk hchain)
      exact chain_succ.2 ⟨j, hread, ih j hread.1 hj⟩
  obtain ⟨hlt, hchain⟩ := (h.left i).1 hi
  exact (hupward m i hlt hchain).mono (Nat.le_add_left m t)

end Round

/-- The first of two definitions is less deep, or declared before the other at the same depth. -/
def Earlier (d : Description) (i k : Nat) : Prop :=
  ∀ s t, IsGreatest {m | d.Chain i m} s → IsGreatest {m | d.Chain k m} t → s < t ∨ s = t ∧ i < k

/-- Positions are sorted by depth, from the depth `t` on, and those that have no depth are left. -/
structure Arranges (d : Description) (t : Nat) (rounds : List Nat × List Nat) : Prop where
  mem : ∀ i, i ∈ rounds.1 ↔ i < d.nodes.length ∧ ∃ s, t ≤ s ∧ IsGreatest {m | d.Chain i m} s
  earlier : rounds.1.Pairwise d.Earlier
  left : ∀ i, i ∈ rounds.2 ↔ i < d.nodes.length ∧ ∀ m, d.Chain i m
  sorted : rounds.2.Pairwise (· < ·)

/-- **What all rounds from the round `t` on take.** -/
theorem Round.arranges (hd : d.Resolves) {t : Nat} {taken : List String} {left : List Nat}
    (h : d.Round t taken left) : d.Arranges t (takeRounds d.nodes taken left) := by
  fun_induction takeRounds d.nodes taken left generalizing t with
  | case1 taken left hnone =>
    have hchain := fun i hi m => h.chain_of_readyNow_eq_nil hd hnone (i := i) hi m
    constructor
    case mem =>
      refine fun i => ⟨fun hi => absurd hi List.not_mem_nil, ?_⟩
      rintro ⟨hi, s, hle, hdepth⟩
      have hleft := (h.left i).2 ⟨hi, Chain.mono hdepth.1 hle⟩
      exact absurd (hchain i hleft (s + 1)) (isGreatest_chain.1 hdepth).2
    case earlier => exact .nil
    case left =>
      exact fun i => ⟨fun hi => ⟨((h.left i).1 hi).1, hchain i hi⟩,
        fun hi => (h.left i).2 ⟨hi.1, hi.2 t⟩⟩
    case sorted => exact h.sorted
  | case2 taken left hsome ready names next =>
    rename_i ih
    obtain ⟨hmem, hearlier, hleft, hsorted⟩ := ih (h.next hd)
    have hready : ∀ i, i ∈ ready ↔ i < d.nodes.length ∧ IsGreatest {m | d.Chain i m} t :=
      fun _ => h.mem_readyNow hd
    refine ⟨fun i => ?_, List.pairwise_append.2 ⟨?_, hearlier, ?_⟩, hleft, hsorted⟩
    · rw [List.mem_append, hready, hmem]
      constructor
      · rintro (⟨hi, hdepth⟩ | ⟨hi, s, hle, hdepth⟩)
        · exact ⟨hi, t, Nat.le_refl t, hdepth⟩
        · exact ⟨hi, s, Nat.le_of_succ_le hle, hdepth⟩
      · rintro ⟨hi, s, hle, hdepth⟩
        rcases Nat.eq_or_lt_of_le hle with rfl | hlt
        · exact .inl ⟨hi, hdepth⟩
        · exact .inr ⟨hi, s, hlt, hdepth⟩
    · -- a round takes definitions of one depth as they are declared
      refine List.Pairwise.imp_of_mem ?_ (h.sorted.filter _)
      intro i k hi hk hlt s s' hs hs'
      exact .inr ⟨(hs.unique ((hready i).1 hi).2).trans (hs'.unique ((hready k).1 hk).2).symm, hlt⟩
    · intro i hi k hk s s' hs hs'
      obtain ⟨-, u, hle, hu⟩ := (hmem k).1 hk
      rw [hs.unique ((hready i).1 hi).2, hs'.unique hu]
      exact .inl hle

namespace Arranges

variable {rounds : List Nat × List Nat}

theorem exists_isGreatest {t : Nat} (h : d.Arranges t rounds) {i : Nat} (hi : i ∈ rounds.1) :
    ∃ s, IsGreatest {m | d.Chain i m} s := by
  obtain ⟨-, s, -, hs⟩ := (h.mem i).1 hi
  exact ⟨s, hs⟩

theorem nodup {t : Nat} (h : d.Arranges t rounds) : rounds.1.Nodup := by
  refine List.Pairwise.imp_of_mem ?_ h.earlier
  rintro i k hi - hearlier rfl
  obtain ⟨s, hs⟩ := h.exists_isGreatest hi
  have := hearlier s s hs hs
  omega

/-- Rounds and what they leave are all definitions. -/
theorem perm (h : d.Arranges 0 rounds) :
    (rounds.1 ++ rounds.2).Perm (List.range d.nodes.length) := by
  refine (List.perm_ext_iff_of_nodup
    (List.nodup_append.2 ⟨h.nodup, h.sorted.nodup, ?_⟩) List.nodup_range).2 ?_
  · rintro i hi k hk rfl
    obtain ⟨s, hs⟩ := h.exists_isGreatest hi
    exact (isGreatest_chain.1 hs).2 (((h.left i).1 hk).2 (s + 1))
  · intro i
    rw [List.mem_append, h.mem, h.left, List.mem_range, ← and_or_left, and_iff_left_iff_imp]
    intro _
    by_cases hall : ∀ m, d.Chain i m
    · exact .inr hall
    · obtain ⟨m, hm⟩ := not_forall.1 hall
      obtain ⟨s, hs⟩ := exists_isGreatest_chain hm
      exact .inl ⟨s, Nat.zero_le s, hs⟩

theorem length_eq_iff (h : d.Arranges 0 rounds) :
    rounds.1.length = d.nodes.length ↔ rounds.2 = [] := by
  have hlength := h.perm.length_eq
  rw [List.length_append, List.length_range] at hlength
  rw [← List.length_eq_zero_iff]
  omega

/-- **What rounds leave leads to a cycle.** -/
theorem mem_left_iff {t : Nat} (h : d.Arranges t rounds) {i : Nat} :
    i ∈ rounds.2 ↔ ∃ k, ReflTransGen d.Reads i k ∧ TransGen d.Reads k k := by
  rw [h.left, ← forall_chain_iff, and_iff_right_iff_imp]
  intro hall
  obtain ⟨k, hread, -⟩ := chain_succ.1 (hall 1)
  exact hread.lt_length

theorem left_eq_nil_iff {t : Nat} (h : d.Arranges t rounds) :
    rounds.2 = [] ↔ ∀ i, ¬TransGen d.Reads i i := by
  rw [List.eq_nil_iff_forall_not_mem]
  constructor
  · exact fun hnone i hcycle => hnone i (h.mem_left_iff.2 ⟨i, .refl, hcycle⟩)
  · intro hacyclic i hi
    obtain ⟨k, -, hcycle⟩ := h.mem_left_iff.1 hi
    exact hacyclic k hcycle

/-- **A definition is taken after those that it reads**, for they are less deep. -/
theorem mem_before (h : d.Arranges 0 rounds) {before after : List Nat} {i k : Nat}
    (hsplit : rounds.1 = before ++ i :: after) (hread : d.Reads i k) : k ∈ before := by
  obtain ⟨s, hs⟩ := h.exists_isGreatest (i := i) (by simp [hsplit])
  have hbelow : ¬d.Chain k s := not_chain_succ.1 (isGreatest_chain.1 hs).2 k hread
  obtain ⟨u, hu⟩ := exists_isGreatest_chain hbelow
  have hlt : u < s := Nat.lt_of_not_le fun hle => hbelow (Chain.mono hu.1 hle)
  have hk : k ∈ rounds.1 := (h.mem k).2 ⟨hread.1, u, Nat.zero_le u, hu⟩
  have hearlier := h.earlier
  rw [hsplit, List.pairwise_append, List.pairwise_cons] at hearlier
  rw [hsplit, List.mem_append, List.mem_cons] at hk
  rcases hk with hk | rfl | hk
  · exact hk
  · exact absurd (hs.unique hu) (Nat.ne_of_gt hlt)
  · have := hearlier.2.1.1 k hk s u hs hu
    omega

end Arranges

end Description

/-! ## Counting down -/

/-- How many definitions each one waits for, and those that ceased to wait since the round began. -/
structure Countdown where
  pending : Nat → Int
  next : List Nat

namespace Countdown

/-- One of the definitions that `k` waits for was taken. -/
def visit (c : Countdown) (k : Nat) : Countdown :=
  let rest := c.pending k - 1
  ⟨Function.update c.pending k rest, if rest = 0 then c.next ++ [k] else c.next⟩

/-- The visits were counted, beginning with the counts `pending`. -/
structure Counted (pending : Nat → Int) (visits : List Nat) (c : Countdown) : Prop where
  pending : ∀ k, c.pending k = pending k - visits.count k
  nodup : c.next.Nodup
  next : ∀ k, k ∈ c.next ↔ k ∈ visits ∧ c.pending k = 0

variable {pending : Nat → Int} {visits : List Nat} {c : Countdown}

theorem Counted.visit (h : Counted pending visits c) {x : Nat} (hx : 0 < c.pending x) :
    Counted pending (visits ++ [x]) (c.visit x) := by
  have hnot : x ∉ c.next := fun hmem => by
    have := ((h.next x).1 hmem).2
    omega
  have hpending : ∀ k, (c.visit x).pending k = if k = x then c.pending x - 1 else c.pending k :=
    fun k => by
    simp only [Countdown.visit, Function.update_apply]
  have hnext : (c.visit x).next = if c.pending x - 1 = 0 then c.next ++ [x] else c.next := rfl
  constructor
  case pending =>
    intro k
    rw [hpending, List.count_append, List.count_singleton]
    by_cases hk : k = x
    · subst hk
      simp [h.pending]
      omega
    · simp [hk, Ne.symm hk, h.pending]
  case nodup =>
    rw [hnext]
    split
    · refine List.nodup_append.2 ⟨h.nodup, List.nodup_singleton x, fun a ha b hb => ?_⟩
      rintro rfl
      exact hnot (List.mem_singleton.1 hb ▸ ha)
    · exact h.nodup
  case next =>
    intro k
    rw [hnext, hpending, List.mem_append, List.mem_singleton]
    by_cases hk : k = x
    · subst hk
      split <;> simp_all
    · have hmem : k ∈ (if c.pending x - 1 = 0 then c.next ++ [x] else c.next) ↔ k ∈ c.next := by
        split <;> simp [hk]
      rw [hmem, h.next]
      simp [hk]

/-- **Visits may come in any order** as long as none of them counts below zero. -/
theorem counted_foldl (pending : Nat → Int) (visits : List Nat)
    (h : ∀ k, (visits.count k : Int) ≤ pending k) :
    Counted pending visits (visits.foldl Countdown.visit ⟨pending, []⟩) := by
  induction visits using List.reverseRecOn with
  | nil => exact ⟨by simp, by simp, by simp⟩
  | append_singleton visits x ih =>
    have hcount : ∀ k, ((visits ++ [x]).count k : Int) = visits.count k + [x].count k := fun k => by
      rw [List.count_append]
      rfl
    have hbefore := ih fun k => by
      have := h k
      have := hcount k
      omega
    rw [List.foldl_append]
    refine hbefore.visit ?_
    have := h x
    have := hcount x
    rw [List.count_singleton_self] at this
    rw [hbefore.pending]
    omega

end Countdown

/-- Counting down from the round `ready` takes the definitions `taken`, in this order, and ends with
the counts `rest`.  The readers of a definition are visited in the order `visits`. -/
inductive CountsDown (visits : Nat → List Nat) :
    (Nat → Int) → List Nat → List Nat → (Nat → Int) → Prop
  | done (pending : Nat → Int) : CountsDown visits pending [] [] pending
  | round {pending rest : Nat → Int} {ready taken : List Nat} {c : Countdown} (hready : ready ≠ [])
      (hc : c = (ready.flatMap visits).foldl Countdown.visit ⟨pending, []⟩)
      (hnext : CountsDown visits c.pending
        (c.next.mergeSort fun a b => decide (a ≤ b)) taken rest) :
      CountsDown visits pending ready (ready ++ taken) rest

/-- Counting down can end in one way only. -/
theorem CountsDown.unique {visits : Nat → List Nat} {pending rest rest' : Nat → Int}
    {ready taken taken' : List Nat} (h : CountsDown visits pending ready taken rest)
    (h' : CountsDown visits pending ready taken' rest') :
    taken' = taken ∧ rest' = rest := by
  induction h generalizing taken' rest' with
  | done pending =>
    cases h' with
    | done => exact ⟨rfl, rfl⟩
    | round hready => exact absurd rfl hready
  | round hready hc _ ih =>
    cases h' with
    | done => exact absurd rfl hready
    | round _ hc' hnext' =>
      subst hc hc'
      obtain ⟨rfl, rfl⟩ := ih hnext'
      exact ⟨rfl, rfl⟩

namespace Description

/-- The definitions that read the one at position `i`. -/
def readers (d : Description) (i : Nat) : List Nat :=
  (List.range d.nodes.length).filter fun k =>
    (d.nodes.getD i .blank).name ∈ (d.nodes.getD k .blank).references

/-- How many names that are not taken the definition at position `k` reads. -/
def waiting (d : Description) (taken : List String) (k : Nat) : Int :=
  ((d.nodes.getD k .blank).references.dedup.filter (· ∉ taken)).length

variable {d : Description} {t : Nat} {taken : List String} {left : List Nat}
  {visits : Nat → List Nat}

theorem mem_readers {i k : Nat} (hi : i < d.nodes.length) : k ∈ d.readers i ↔ d.Reads k i := by
  rw [readers, List.mem_filter, List.mem_range, decide_eq_true_iff]
  constructor
  · exact fun h => ⟨hi, h.2⟩
  · exact fun h => ⟨h.lt_length, h.2⟩

theorem nodup_readers (d : Description) (i : Nat) : (d.readers i).Nodup := List.nodup_range.filter _

theorem waiting_eq_zero_iff {k : Nat} :
    d.waiting taken k = 0 ↔ ∀ x ∈ (d.nodes.getD k .blank).references, x ∈ taken := by
  rw [waiting, Int.natCast_eq_zero, List.length_eq_zero_iff, List.filter_eq_nil_iff]
  simp only [List.mem_dedup, decide_eq_true_eq, not_not]

/-- Those that are ready wait for nothing. -/
theorem readyNow_eq_filter_waiting :
    readyNow d.nodes taken left = left.filter (d.waiting taken · = 0) := by
  refine List.filter_congr fun i _ => ?_
  rw [Bool.eq_iff_iff, List.all_eq_true, decide_eq_true_iff, waiting_eq_zero_iff]
  simp only [decide_eq_true_eq]

/-- Each visit of a round stands for one definition that is taken. -/
theorem count_visits (hvisits : ∀ i < d.nodes.length, (visits i).Perm (d.readers i))
    {ready : List Nat} (hready : ∀ i ∈ ready, i < d.nodes.length) (k : Nat) :
    (ready.flatMap visits).count k =
      (ready.filter fun i =>
        (d.nodes.getD i .blank).name ∈ (d.nodes.getD k .blank).references).length := by
  induction ready with
  | nil => rfl
  | cons i ready ih =>
    have hi : i < d.nodes.length := hready i List.mem_cons_self
    have hone : (visits i).count k =
        if (d.nodes.getD i .blank).name ∈ (d.nodes.getD k .blank).references then 1 else 0 := by
      rw [(hvisits i hi).count_eq, List.Nodup.count (d.nodup_readers i)]
      simp only [mem_readers hi, Reads, hi, true_and]
    rw [List.flatMap_cons, List.count_append, hone, ih fun j hj =>
      hready j (List.mem_cons_of_mem _ hj), List.filter_cons]
    split <;> simp_all [Nat.add_comm]

/-- Names that are read and not taken are left by a round or are those of definitions that it
takes. -/
theorem length_filter_not_taken {reads : List String} (hreads : reads.Nodup) {ready : List Nat}
    {name : Nat → String} (hnames : (ready.map name).Nodup) (hnew : ∀ i ∈ ready, name i ∉ taken) :
    (reads.filter (· ∉ taken)).length =
      (ready.filter (name · ∈ reads)).length +
      (reads.filter (· ∉ ready.map name ++ taken)).length := by
  have hperm : ((reads.filter (· ∉ taken)).filter (· ∈ ready.map name)).Perm
      ((ready.filter (name · ∈ reads)).map name) := by
    refine (List.perm_ext_iff_of_nodup ((hreads.filter _).filter _)
      (hnames.sublist (List.filter_sublist.map _))).2 fun x => ?_
    simp only [List.mem_filter, List.mem_map, decide_eq_true_eq]
    constructor
    · rintro ⟨⟨hx, -⟩, i, hi, rfl⟩
      exact ⟨i, ⟨hi, hx⟩, rfl⟩
    · rintro ⟨i, ⟨hi, hx⟩, rfl⟩
      exact ⟨⟨hx, hnew i hi⟩, i, hi, rfl⟩
  have hothers : (reads.filter (· ∉ taken)).filter (fun x => !decide (x ∈ ready.map name)) =
      reads.filter (· ∉ ready.map name ++ taken) := by
    rw [List.filter_filter]
    refine List.filter_congr fun x _ => ?_
    simp [-List.mem_map]
  rw [List.length_eq_length_filter_add (l := reads.filter (· ∉ taken)) (· ∈ ready.map name),
    hperm.length_eq, List.length_map, hothers]

/-- **A round is counted by its visits.** -/
theorem Round.waiting_eq (h : d.Round t taken left) (hd : d.Resolves)
    (hvisits : ∀ i < d.nodes.length, (visits i).Perm (d.readers i)) (k : Nat) :
    d.waiting taken k = ((readyNow d.nodes taken left).flatMap visits).count k +
      d.waiting ((readyNow d.nodes taken left).map (fun i => (d.nodes.getD i .blank).name) ++
        taken) k := by
  have hready : ∀ i ∈ readyNow d.nodes taken left, i < d.nodes.length ∧
      (d.nodes.getD i .blank).name ∉ taken := by
    intro i hi
    obtain ⟨hlt, hchain⟩ := (h.left i).1 (List.mem_filter.1 hi).1
    exact ⟨hlt, fun hmem => (h.taken i hlt).1 hmem hchain⟩
  have hnames : ((readyNow d.nodes taken left).map fun i => (d.nodes.getD i .blank).name).Nodup :=
    List.Nodup.map_on (fun i hi j hj hij => hd.eq_of_name_eq (hready i hi).1 (hready j hj).1 hij)
      (h.sorted.filter _).nodup
  have hlength := length_filter_not_taken
    (List.nodup_dedup (d.nodes.getD k .blank).references) hnames fun i hi => (hready i hi).2
  rw [count_visits hvisits fun i hi => (hready i hi).1]
  simp only [List.mem_dedup] at hlength
  rw [waiting, waiting]
  exact_mod_cast hlength

/-- Readers that cease to wait in a round are the next one. -/
theorem Round.mem_next (h : d.Round t taken left) (hd : d.Resolves)
    (hvisits : ∀ i < d.nodes.length, (visits i).Perm (d.readers i)) {k : Nat} :
    (k ∈ (readyNow d.nodes taken left).flatMap visits ∧
      d.waiting ((readyNow d.nodes taken left).map (fun i => (d.nodes.getD i .blank).name) ++
        taken) k = 0) ↔
    k < d.nodes.length ∧ IsGreatest {m | d.Chain k m} (t + 1) := by
  rw [waiting_eq_zero_iff, (h.next hd).forall_references hd, isGreatest_chain, List.mem_flatMap]
  constructor
  · rintro ⟨⟨i, hi, hk⟩, hnot⟩
    obtain ⟨hlt, hdepth⟩ := (h.mem_readyNow hd).1 hi
    have hread := (mem_readers hlt).1 ((hvisits i hlt).mem_iff.1 hk)
    exact ⟨hread.lt_length, chain_succ.2 ⟨i, hread, hdepth.1⟩, hnot⟩
  · rintro ⟨-, hchain, hnot⟩
    obtain ⟨i, hread, hi⟩ := chain_succ.1 hchain
    have hdepth : IsGreatest {m | d.Chain i m} t :=
      isGreatest_chain.2 ⟨hi, not_chain_succ.1 hnot i hread⟩
    exact ⟨⟨i, (h.mem_readyNow hd).2 ⟨hread.1, hdepth⟩, (hvisits i hread.1).mem_iff.2
      ((mem_readers hread.1).2 hread)⟩, hnot⟩

/-- **The counts and the next round**, whatever the order of the visits. -/
theorem Round.foldl_visit (h : d.Round t taken left) (hd : d.Resolves)
    (hvisits : ∀ i < d.nodes.length, (visits i).Perm (d.readers i)) {names : List String}
    {c : Countdown} (hnames : names = (readyNow d.nodes taken left).map fun i =>
      (d.nodes.getD i .blank).name)
    (hc : c = ((readyNow d.nodes taken left).flatMap visits).foldl Countdown.visit
      ⟨d.waiting taken, []⟩) :
    c.pending = d.waiting (names ++ taken) ∧
      (c.next.mergeSort fun a b => decide (a ≤ b)) =
        readyNow d.nodes (names ++ taken) (notReady d.nodes taken left) := by
  have hwaiting := h.waiting_eq hd hvisits
  rw [← hnames] at hwaiting
  have hcounted := Countdown.counted_foldl (d.waiting taken)
    ((readyNow d.nodes taken left).flatMap visits) fun k => by
    have : 0 ≤ d.waiting (names ++ taken) k := Int.natCast_nonneg _
    have := hwaiting k
    omega
  rw [← hc] at hcounted
  have hpending : c.pending = d.waiting (names ++ taken) := funext fun k => by
    have := hcounted.pending k
    have := hwaiting k
    omega
  have hnext : d.Round (t + 1) (names ++ taken) (notReady d.nodes taken left) := hnames ▸ h.next hd
  refine ⟨hpending, List.Pairwise.eq_of_mem_iff (r := (· < ·)) ?_
    (hnext.sorted.filter _) fun k => ?_⟩
  · have hnodup := (List.mergeSort_perm c.next fun a b => decide (a ≤ b)).nodup_iff.2 hcounted.nodup
    exact (List.pairwise_mergeSort' (· ≤ ·) c.next).imp₂ (fun _ _ => Nat.lt_of_le_of_ne) hnodup
  · rw [List.mem_mergeSort, hcounted.next, hpending, hnext.mem_readyNow hd, hnames]
    exact h.mem_next hd hvisits

/-- **Counting down takes the rounds**, and those that still wait at the end are what rounds
leave. -/
theorem Round.countsDown (hd : d.Resolves)
    (hvisits : ∀ i < d.nodes.length, (visits i).Perm (d.readers i)) (h : d.Round t taken left) :
    ∃ rest, CountsDown visits (d.waiting taken) (readyNow d.nodes taken left)
      (takeRounds d.nodes taken left).1 rest ∧
      (takeRounds d.nodes taken left).2 = (List.range d.nodes.length).filter (0 < rest ·) := by
  fun_induction takeRounds d.nodes taken left generalizing t with
  | case1 taken left hnone =>
    refine ⟨d.waiting taken, by simpa only [hnone] using CountsDown.done _, ?_⟩
    refine List.Pairwise.eq_of_mem_iff (r := (· < ·)) h.sorted
      (List.pairwise_lt_range.filter _) fun i => ?_
    have hpos : 0 < d.waiting taken i ↔ d.Chain i (t + 1) := by
      rw [← not_iff_not, ← h.forall_references hd, ← waiting_eq_zero_iff]
      have : 0 ≤ d.waiting taken i := Int.natCast_nonneg _
      omega
    rw [List.mem_filter, List.mem_range, decide_eq_true_iff, hpos]
    constructor
    · exact fun hi => ⟨((h.left i).1 hi).1, h.chain_of_readyNow_eq_nil hd hnone hi (t + 1)⟩
    · exact fun hi => (h.left i).2 ⟨hi.1, hi.2.pred⟩
  | case2 taken left hsome ready names next =>
    rename_i ih
    obtain ⟨rest, hcounts, hleft⟩ := ih (h.next hd)
    obtain ⟨hpending, hnext⟩ := h.foldl_visit hd hvisits rfl rfl
    refine ⟨rest, .round hsome rfl ?_, hleft⟩
    rw [hpending, hnext]
    exact hcounts

/-! ## The order -/

theorem checkNames_of_valid {i : Nat} {seen : List String} {defs : List NodeDef}
    (hvalid : ∀ n ∈ defs, n.hasValidName = true) (hdistinct : (defs.map NodeDef.name).Nodup)
    (hseen : ∀ n ∈ defs, n.name ∉ seen) : checkNames i seen defs = .ok () := by
  induction defs generalizing i seen with
  | nil => rfl
  | cons n rest ih =>
    have hn : n.hasValidName = true := hvalid n List.mem_cons_self
    have hne : n.name ≠ "" := by
      intro hempty
      simp [NodeDef.hasValidName, hempty] at hn
    obtain ⟨hnew, hdistinct⟩ := List.nodup_cons.1 hdistinct
    rw [checkNames, if_neg (by simpa using hne), if_neg (by simp [hn]),
      if_neg (hseen n List.mem_cons_self)]
    refine ih (fun m hm => hvalid m (List.mem_cons_of_mem n hm)) hdistinct fun m hm hmem => ?_
    rcases List.mem_cons.1 hmem with hname | hmem
    · exact hnew (hname ▸ List.mem_map_of_mem hm)
    · exact hseen m (List.mem_cons_of_mem n hm) hmem

theorem Resolves.unknownReference? (hd : d.Resolves) :
    LanePadding.unknownReference? (d.nodes.map NodeDef.name) d.nodes = none := by
  refine List.findSome?_eq_none_iff.2 fun n hn => ?_
  rw [Option.map_eq_none_iff, List.find?_eq_none]
  intro x hx
  simpa using hd.known n hn x hx

/-- Rounds decide if names can be resolved. -/
theorem Resolves.order_eq (hd : d.Resolves) {rounds : List Nat × List Nat}
    (hrounds : takeRounds d.nodes [] (List.range d.nodes.length) = rounds) :
    d.order = if rounds.2 = [] then .ok rounds.1
      else .error (.cycle d.name (rounds.2.map fun i => (d.nodes.getD i .blank).name)) := by
  rw [order, checkNames_of_valid hd.valid hd.distinct (by simp), hd.unknownReference?, hrounds]
  by_cases hleft : rounds.2 = []
  · rw [if_pos hleft]
    simp [hleft, bind, Except.bind, pure, Except.pure]
  · rw [if_neg hleft]
    simp [hleft, bind, Except.bind, throw, throwThe, MonadExceptOf.throw]

theorem resolves_of_order {order : List Nat} (h : d.order = .ok order) : d.Resolves := by
  obtain ⟨⟨u, hchecked⟩, -⟩ := order_eq_ok h
  obtain ⟨hvalid, hdistinct⟩ := checkNames_eq_ok hchecked
  refine ⟨fun n hn => (hvalid n hn).1, hdistinct, fun n hn x hx => ?_⟩
  by_contra hunknown
  have hsome : (LanePadding.unknownReference? (d.nodes.map NodeDef.name) d.nodes).isSome := by
    rw [LanePadding.unknownReference?, List.findSome?_isSome_iff]
    refine ⟨n, hn, ?_⟩
    rw [Option.isSome_map, List.find?_isSome]
    exact ⟨x, hx, by simpa using hunknown⟩
  obtain ⟨⟨node, input⟩, hsome⟩ := Option.isSome_iff_exists.1 hsome
  rw [Description.order, hchecked, hsome] at h
  cases h

/-- An order that is found has all definitions by depth. -/
theorem arranges_of_order {order : List Nat} (h : d.order = .ok order) : d.Arranges 0 (order, []) :=
  (order_eq_ok h).2 ▸ d.round_zero.arranges (resolves_of_order h)

/-- **Definitions are ordered by depth.**  There is an order unless references form a cycle.  It has
each definition once, by the length of the longest chain of references below it and then by
declaration, hence after all that it reads.  If there is none, the definitions that lead to a cycle
are reported as they are declared.  Counting how many definitions each one waits for gives the same,
in whatever order the readers of a definition are visited. -/
theorem order_by_depth (hd : d.Resolves) :
    ((∃ order, d.order = .ok order) ↔ ∀ i, ¬TransGen d.Reads i i) ∧
    (∀ order, d.order = .ok order → order.Perm (List.range d.nodes.length) ∧
      (∃ depth : Nat → Nat, (∀ i, IsGreatest {m | d.Chain i m} (depth i)) ∧
        order.Pairwise fun i k => depth i < depth k ∨ depth i = depth k ∧ i < k) ∧
      ∀ before i after, order = before ++ i :: after → ∀ k, d.Reads i k → k ∈ before) ∧
    (∀ e, d.order = .error e → ∃ blamed : List Nat, blamed.Pairwise (· < ·) ∧
      (∀ i, i ∈ blamed ↔ ∃ k, ReflTransGen d.Reads i k ∧ TransGen d.Reads k k) ∧
      e = .cycle d.name (blamed.map fun i => (d.nodes.getD i .blank).name)) ∧
    ∀ visits : Nat → List Nat, (∀ i < d.nodes.length, (visits i).Perm (d.readers i)) →
      ∃ taken rest, (∀ taken' rest', CountsDown visits (d.waiting [])
          ((List.range d.nodes.length).filter (d.waiting [] · = 0)) taken' rest' ↔
            taken' = taken ∧ rest' = rest) ∧
        d.order = if taken.length = d.nodes.length then .ok taken else .error (.cycle d.name
          (((List.range d.nodes.length).filter (0 < rest ·)).map fun i =>
            (d.nodes.getD i .blank).name)) := by
  have hround := d.round_zero
  obtain ⟨rounds, hrounds⟩ : ∃ rounds, takeRounds d.nodes [] (List.range d.nodes.length) = rounds :=
    ⟨_, rfl⟩
  have harranges : d.Arranges 0 rounds := hrounds ▸ hround.arranges hd
  have horder := hd.order_eq hrounds
  refine ⟨?_, fun order hok => ?_, fun e herror => ?_, fun visits hvisits => ?_⟩
  · rw [horder, ← harranges.left_eq_nil_iff]
    split <;> simp_all
  · have hleft : rounds.2 = [] := by
      by_contra hne
      rw [horder, if_neg hne] at hok
      cases hok
    rw [horder, if_pos hleft] at hok
    obtain rfl := Except.ok.inj hok
    choose depth hdepth using exists_depth (harranges.left_eq_nil_iff.1 hleft)
    refine ⟨?_, ⟨depth, hdepth, ?_⟩, fun before i after hsplit k hread =>
      harranges.mem_before hsplit hread⟩
    · simpa only [hleft, List.append_nil] using harranges.perm
    · exact harranges.earlier.imp fun hearlier => hearlier _ _ (hdepth _) (hdepth _)
  · rw [horder] at herror
    split at herror
    · cases herror
    · exact ⟨rounds.2, harranges.sorted, fun _ => harranges.mem_left_iff,
        (Except.error.inj herror).symm⟩
  · obtain ⟨rest, hcounts, hleft⟩ := hround.countsDown hd hvisits
    rw [hrounds] at hcounts hleft
    rw [readyNow_eq_filter_waiting] at hcounts
    refine ⟨rounds.1, rest, fun taken' rest' => ⟨hcounts.unique, ?_⟩, ?_⟩
    · rintro ⟨rfl, rfl⟩
      exact hcounts
    · rw [horder, hleft]
      simp only [harranges.length_eq_iff, hleft]

/-- All but one of the definitions are declared before something that they read. -/
def crossed : Description where
  name := "crossed"
  nodes := [
    { NodeDef.blank with
      name := "y", op := "CmpSel", inputs := ["l", "r", "=0", "l"], mode := "<" },
    { NodeDef.blank with name := "r", op := "Exp", inputs := ["x"] },
    { NodeDef.blank with name := "l", op := "Add", inputs := ["r", "$s"] },
    { NodeDef.blank with name := "x", op := "Placeholder", dtype := "Float32" },
    { NodeDef.blank with name := "z", op := "Mul", inputs := ["x", "x"] }]
  outputs := []

/-- A cycle of two definitions, one that reads it, and a definition that reads itself. -/
def looped : Description where
  name := "looped"
  nodes := [
    { NodeDef.blank with name := "c", op := "Add", inputs := ["b", "x"] },
    { NodeDef.blank with name := "a", op := "Exp", inputs := ["b"] },
    { NodeDef.blank with name := "x", op := "Placeholder", dtype := "Float32" },
    { NodeDef.blank with name := "b", op := "Mul", inputs := ["a", "a"] },
    { NodeDef.blank with name := "s", op := "Neg", inputs := ["s"] }]
  outputs := []

theorem order_by_depth_crossed :
    crossed.Resolves ∧ crossed.order = .ok [3, 1, 4, 2, 0] ∧
      (∃ depth : Nat → Nat, (∀ i, IsGreatest {m | crossed.Chain i m} (depth i)) ∧
        [3, 1, 4, 2, 0].Pairwise fun i k => depth i < depth k ∨ depth i = depth k ∧ i < k) ∧
      (∃ rest, CountsDown (fun i => (crossed.readers i).reverse) (crossed.waiting []) [3]
        [3, 1, 4, 2, 0] rest) ∧
      looped.Resolves ∧ looped.order = .error (.cycle "looped" ["c", "a", "b", "s"]) ∧
      (∃ i, TransGen looped.Reads i i) ∧
      ∃ blamed : List Nat, blamed.map (fun i => (looped.nodes.getD i .blank).name) =
        ["c", "a", "b", "s"] ∧
        ∀ i, i ∈ blamed ↔ ∃ k, ReflTransGen looped.Reads i k ∧ TransGen looped.Reads k k := by
  have hcrossed : crossed.Resolves := by decide
  have horder : crossed.order = .ok [3, 1, 4, 2, 0] := by decide +kernel
  have hlooped : looped.Resolves := by decide
  have herror : looped.order = .error (.cycle "looped" ["c", "a", "b", "s"]) := by decide +kernel
  obtain ⟨-, hsorted, -, hcounts⟩ := order_by_depth hcrossed
  obtain ⟨hcycle, -, hblamed, -⟩ := order_by_depth hlooped
  refine ⟨hcrossed, horder, (hsorted _ horder).2.1, ?_, hlooped, herror, ?_, ?_⟩
  · obtain ⟨taken, rest, hends, hsame⟩ := hcounts (fun i => (crossed.readers i).reverse) fun i _ =>
      List.reverse_perm _
    have htaken : taken = [3, 1, 4, 2, 0] := by
      rw [horder] at hsame
      split at hsame
      · exact (Except.ok.inj hsame).symm
      · cases hsame
    have hready : (List.range crossed.nodes.length).filter (crossed.waiting [] · = 0) = [3] := by
      decide
    rw [hready, htaken] at hends
    exact ⟨rest, (hends _ _).2 ⟨rfl, rfl⟩⟩
  · by_contra hnone
    obtain ⟨order, hok⟩ := hcycle.2 fun i hi => hnone ⟨i, hi⟩
    rw [herror] at hok
    cases hok
  · obtain ⟨blamed, -, hmem, hnames⟩ := hblamed _ herror
    exact ⟨blamed, (OrderError.cycle.inj hnames).2.symm, hmem⟩

end Description
end LanePadding
