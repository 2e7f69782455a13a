import Mathlib.Data.List.Induction
import Mathlib.Data.List.Nodup
import Mathlib.Data.List.Sort
import Ibm704.Order.Lookup

/-!
# The nearest template

The orders of the table are entered one after another.  Each of these steps
changes what there is for one template only, so in the end there is one order for
every template of the table, and it is the one that a scan of the table prefers.
Sorting brings them into descending order, where the condition that a template is
not above a word holds from some index on.  Halving finds the first such index,
which has the largest template of the table that is not above the word.
-/

namespace Ibm704

theorem Word.eq_of_toNat {w v : Word} (h : w.toNat = v.toNat) : w = v := by
  cases w
  cases v
  exact congrArg Word.mk (BitVec.eq_of_toNat_eq h)

namespace Order

/-!
# The preferred order of a template

A scan of the table prefers an order that is no constant to one that is.
-/

def first? (template : Word) (orders : List Order) : Option Order :=
  orders.find? fun order => order.template = template

/-- The order that a scan prefers for a template: the first that is no constant, or else the
first. -/
def preferred? (template : Word) (orders : List Order) : Option Order :=
  (orders.find? fun order => order.template = template ∧ order.constant = false).or
    (first? template orders)

def prefer (found : Option Order) (order : Order) : Order :=
  match found with
  | some head => if head.constant && !order.constant then order else head
  | none => order

theorem first?_cons (template : Word) (order : Order) (orders : List Order) :
    first? template (order :: orders) =
      if order.template = template then some order else first? template orders := by
  unfold first?
  rw [List.find?_cons]
  by_cases h : order.template = template <;> simp [h]

theorem first?_mem {template : Word} {orders : List Order} {order : Order}
    (h : first? template orders = some order) : order ∈ orders ∧ order.template = template := by
  have hsatisfies := List.find?_some h
  exact ⟨List.mem_of_find?_eq_some h, by simpa using hsatisfies⟩

theorem preferred?_mem {template : Word} {orders : List Order} {order : Order}
    (h : preferred? template orders = some order) : order ∈ orders ∧ order.template = template := by
  rcases Option.or_eq_some_iff.mp h with hfirst | ⟨_, hfirst⟩
  · have hsatisfies := List.find?_some hfirst
    simp only [decide_eq_true_eq] at hsatisfies
    exact ⟨List.mem_of_find?_eq_some hfirst, hsatisfies.1⟩
  · exact first?_mem hfirst

theorem exists_preferred {order : Order} {orders : List Order} (h : order ∈ orders) :
    ∃ found, preferred? order.template orders = some found := by
  have hsome : (first? order.template orders).isSome := by
    rw [first?, List.find?_isSome]
    exact ⟨order, h, decide_eq_true rfl⟩
  rw [← Option.isSome_iff_exists, preferred?, Option.isSome_or, hsome, Bool.or_true]

theorem preferred?_append (template : Word) (orders : List Order) (order : Order) :
    preferred? template (orders ++ [order]) =
      if order.template = template then some (prefer (preferred? template orders) order)
      else preferred? template orders := by
  unfold preferred? first?
  rw [List.find?_append, List.find?_append]
  by_cases hsame : order.template = template
  · rw [if_pos hsame]
    cases hfirst : orders.find? fun other => other.template = template ∧ other.constant = false with
    | some head =>
        have hhead := List.find?_some hfirst
        simp only [decide_eq_true_eq] at hhead
        simp [prefer, hhead.2]
    | none =>
        cases hany : orders.find? fun other => other.template = template with
        | none => cases hconstant : order.constant <;> simp [prefer, hsame, hconstant]
        | some head =>
            have hhead : head.constant = true := by
              have hconstant := List.find?_eq_none.mp hfirst head (List.mem_of_find?_eq_some hany)
              have htemplate := (first?_mem hany).2
              simpa [htemplate] using hconstant
            cases hconstant : order.constant with
            | true => simp [prefer, hhead, hconstant]
            | false => simp [prefer, hhead, hconstant, hsame]
  · rw [if_neg hsame]
    simp [hsame]

/-!
# One order for each template

Entering the orders of the table one after another keeps the preferred order of each
template.
-/

theorem templates_enter (order : Order) (entered : List Order) :
    (enter order entered).map template =
      if order.template ∈ entered.map template then entered.map template
      else entered.map template ++ [order.template] := by
  induction entered with
  | nil => rfl
  | cons head rest ih =>
      rw [enter]
      by_cases hsame : head.template = order.template
      · rw [if_pos hsame, List.map_cons, List.map_cons, hsame, if_pos List.mem_cons_self]
        split
        · rfl
        · rw [hsame]
      · rw [if_neg hsame, List.map_cons, List.map_cons, ih]
        by_cases hmem : order.template ∈ rest.map template
        · rw [if_pos hmem, if_pos (List.mem_cons_of_mem _ hmem)]
        · rw [if_neg hmem, if_neg, List.cons_append]
          rw [List.mem_cons, not_or]
          exact ⟨Ne.symm hsame, hmem⟩

theorem first?_enter (order : Order) (entered : List Order) (template : Word) :
    first? template (enter order entered) =
      if order.template = template then some (prefer (first? template entered) order)
      else first? template entered := by
  induction entered with
  | nil => exact first?_cons template order []
  | cons head rest ih =>
      rw [enter]
      by_cases hsame : head.template = order.template
      · have hkept : (if head.constant && !order.constant then order else head).template =
            order.template := by
          split
          · rfl
          · exact hsame
        rw [if_pos hsame, first?_cons, first?_cons, hkept, hsame]
        split
        · rfl
        · rfl
      · rw [if_neg hsame, first?_cons, first?_cons, ih]
        by_cases htemplate : head.template = template
        · have hother : order.template ≠ template :=
            fun horder => hsame (htemplate.trans horder.symm)
          rw [if_pos htemplate, if_neg hother, if_pos htemplate]
        · rw [if_neg htemplate, if_neg htemplate]

theorem onePerTemplate_append (orders : List Order) (order : Order) :
    onePerTemplate (orders ++ [order]) = enter order (onePerTemplate orders) :=
  List.foldl_append

theorem onePerTemplate_nodup (orders : List Order) :
    ((onePerTemplate orders).map template).Nodup := by
  -- Orders are entered from the start of the list, so the induction takes them off its end.
  induction orders using List.reverseRecOn with
  | nil => exact List.nodup_nil
  | append_singleton orders order ih =>
      rw [onePerTemplate_append, templates_enter]
      split
      · exact ih
      · rename_i hnew
        rw [← List.concat_eq_append]
        exact ih.concat hnew

theorem first?_onePerTemplate (orders : List Order) (template : Word) :
    first? template (onePerTemplate orders) = preferred? template orders := by
  induction orders using List.reverseRecOn with
  | nil => rfl
  | append_singleton orders order ih =>
      rw [onePerTemplate_append, first?_enter, preferred?_append, ih]

theorem mem_onePerTemplate {orders : List Order} {order : Order} :
    order ∈ onePerTemplate orders ↔ preferred? order.template orders = some order := by
  rw [← first?_onePerTemplate]
  constructor
  · intro hmem
    cases hfound : first? order.template (onePerTemplate orders) with
    | none => exact absurd (decide_eq_true rfl) (List.find?_eq_none.mp hfound order hmem)
    | some found =>
        rcases first?_mem hfound with ⟨hfoundMem, htemplate⟩
        rw [List.inj_on_of_nodup_map (onePerTemplate_nodup orders) hfoundMem hmem htemplate]
  · intro hfound
    exact (first?_mem hfound).1

/-!
# The index

The index has the preferred orders in descending order of their templates.
-/

def Descending (index : List Order) : Prop :=
  index.Pairwise fun order later => later.template.toNat < order.template.toNat

def NotBelow (order later : Order) : Prop :=
  later.template.toNat ≤ order.template.toNat

instance : DecidableRel NotBelow := fun order later =>
  inferInstanceAs (Decidable (later.template.toNat ≤ order.template.toNat))

instance : Std.Total NotBelow :=
  ⟨fun order later => Nat.le_total later.template.toNat order.template.toNat⟩

instance : IsTrans Order NotBelow :=
  ⟨fun _ _ _ hfirst hsecond => Nat.le_trans hsecond hfirst⟩

theorem insertByTemplate_eq (order : Order) (index : List Order) :
    insertByTemplate order index = index.orderedInsert NotBelow order := by
  induction index with
  | nil => rfl
  | cons head rest ih =>
      rw [insertByTemplate, ih]
      rfl

theorem byTemplate_eq : byTemplate.toList = (onePerTemplate table).insertionSort NotBelow := by
  have hinsert : insertByTemplate = List.orderedInsert NotBelow :=
    funext fun order => funext fun index => insertByTemplate_eq order index
  rw [byTemplate, hinsert]
  rfl

theorem byTemplate_perm : byTemplate.toList.Perm (onePerTemplate table) := by
  rw [byTemplate_eq]
  exact List.perm_insertionSort NotBelow _

theorem byTemplate_descending : Descending byTemplate.toList := by
  have hsorted : byTemplate.toList.Pairwise NotBelow := by
    rw [byTemplate_eq]
    exact List.pairwise_insertionSort NotBelow _
  have hnodup : (byTemplate.toList.map template).Nodup :=
    (byTemplate_perm.map template).nodup_iff.mpr (onePerTemplate_nodup table)
  refine (hsorted.and (List.pairwise_map.mp hnodup)).imp ?_
  rintro order later ⟨hle, hne⟩
  exact Nat.lt_of_le_of_ne hle fun hsame => hne (Word.eq_of_toNat hsame).symm

theorem mem_byTemplate {order : Order} :
    order ∈ byTemplate.toList ↔ preferred? order.template table = some order :=
  byTemplate_perm.mem_iff.trans mem_onePerTemplate

/-!
# Halving

If a condition holds from some index on, halving finds the first such index of the
range.
-/

theorem bisect_spec {n : Nat} {holds : Fin n → Bool}
    (hlater : ∀ i j, i ≤ j → holds i = true → holds j = true) {low high : Nat} (hhigh : high ≤ n)
    (hrange : low ≤ high) (hbelow : ∀ i, i.val < low → holds i = false)
    (habove : ∀ i, high ≤ i.val → holds i = true) :
    (∀ i, i.val < bisect holds low high hhigh → holds i = false) ∧
      ∀ i, bisect holds low high hhigh ≤ i.val → holds i = true := by
  fun_induction bisect holds low high hhigh with
  | case1 low high hhigh hless hholds ih =>
      refine ih (by omega) hbelow ?_
      intro i hi
      exact hlater _ i hi hholds
  | case2 low high hhigh hless hholds ih =>
      refine ih (by omega) ?_ habove
      intro i hi
      rw [← Bool.not_eq_true]
      intro hi'
      exact hholds (hlater i _ (Nat.le_of_lt_succ hi) hi')
  | case3 low high hhigh hless =>
      refine ⟨hbelow, ?_⟩
      intro i hi
      exact habove i (by omega)

/-!
# The largest template not above a word

Templates not above a word are those from some index on, and the first of them is the
largest.
-/

theorem templateAt_lt {i j : Fin byTemplate.size} (h : i < j) : templateAt j < templateAt i :=
  List.pairwise_iff_getElem.mp byTemplate_descending i j i.isLt j.isLt h

theorem templateAt_le {i j : Fin byTemplate.size} (h : i ≤ j) : templateAt j ≤ templateAt i := by
  rcases Nat.lt_or_eq_of_le h with hless | hsame
  · exact Nat.le_of_lt (templateAt_lt hless)
  · rw [Fin.ext hsame]

theorem nearestIndex_le_iff {w : Word} {i : Fin byTemplate.size} :
    nearestIndex w ≤ i.val ↔ templateAt i ≤ w.toNat := by
  have hlater : ∀ i j : Fin byTemplate.size, i ≤ j →
      decide (templateAt i ≤ w.toNat) = true → decide (templateAt j ≤ w.toNat) = true := by
    intro i j hij hi
    exact decide_eq_true (Nat.le_trans (templateAt_le hij) (of_decide_eq_true hi))
  rcases bisect_spec hlater (Nat.le_refl _) (Nat.zero_le _)
    (fun i hi => absurd hi (Nat.not_lt_zero _)) (fun i hi => absurd i.isLt (Nat.not_lt.mpr hi)) with
    ⟨hbefore, hafter⟩
  constructor
  · intro hi
    exact of_decide_eq_true (hafter i hi)
  · intro hi
    rw [← Nat.not_lt]
    intro hless
    exact of_decide_eq_false (hbefore i hless) hi

theorem exists_index {order : Order} (h : order ∈ table) :
    ∃ i, templateAt i = order.template.toNat := by
  rcases exists_preferred h with ⟨found, hfound⟩
  have htemplate := (preferred?_mem hfound).2
  rw [← htemplate] at hfound
  rcases List.getElem_of_mem (mem_byTemplate.mpr hfound) with ⟨i, hi, hget⟩
  refine ⟨⟨i, hi⟩, ?_⟩
  rw [← htemplate, ← hget]
  rfl

theorem nearest?_spec {w : Word} {order : Order} (h : nearest? w = some order) :
    preferred? order.template table = some order ∧ order.template.toNat ≤ w.toNat ∧
      ∀ other ∈ table, other.template.toNat ≤ w.toNat →
        other.template.toNat ≤ order.template.toNat := by
  rcases Array.getElem?_eq_some_iff.mp h with ⟨hsize, hget⟩
  have htemplate : templateAt ⟨nearestIndex w, hsize⟩ = order.template.toNat :=
    congrArg (fun found => found.template.toNat) hget
  refine ⟨?_, ?_, ?_⟩
  · rw [← mem_byTemplate, ← hget]
    exact Array.getElem_mem_toList hsize
  · rw [← htemplate, ← nearestIndex_le_iff]
  · intro other hother hle
    rcases exists_index hother with ⟨i, hi⟩
    rw [← hi, ← nearestIndex_le_iff] at hle
    rw [← hi, ← htemplate]
    exact templateAt_le hle

theorem exists_nearest {w : Word} {order : Order} (horder : order ∈ table)
    (hle : order.template.toNat ≤ w.toNat) : ∃ found, nearest? w = some found := by
  rcases exists_index horder with ⟨i, hi⟩
  rw [← hi, ← nearestIndex_le_iff] at hle
  have hsize : nearestIndex w < byTemplate.size := Nat.lt_of_le_of_lt hle i.isLt
  exact ⟨byTemplate[nearestIndex w], Array.getElem?_eq_getElem hsize⟩

theorem nearest?_eq {w : Word} {order : Order}
    (hpreferred : preferred? order.template table = some order)
    (hle : order.template.toNat ≤ w.toNat)
    (hlargest : ∀ other ∈ table, other.template.toNat ≤ w.toNat →
      other.template.toNat ≤ order.template.toNat) : nearest? w = some order := by
  have hmem := (preferred?_mem hpreferred).1
  rcases exists_nearest hmem hle with ⟨found, hfound⟩
  rcases nearest?_spec hfound with ⟨hfoundPreferred, hfoundLe, hfoundLargest⟩
  have hsame : found.template = order.template := by
    apply Word.eq_of_toNat
    apply Nat.le_antisymm
    · exact hlargest found (preferred?_mem hfoundPreferred).1 hfoundLe
    · exact hfoundLargest order hmem hle
  rw [hsame, hpreferred] at hfoundPreferred
  rw [hfound, hfoundPreferred]

end Order
end Ibm704
