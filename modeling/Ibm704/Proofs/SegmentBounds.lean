import Mathlib.Data.List.Chain
import Ibm704.Proofs.Segments

/-!
# Where segments end

The segments of a program hold its words in their order, and each is as long as it
can be.  Two words that follow each other are in one segment if they have one form
and follow each other in core too, unless a statement between them separates them:
one that sets the counter or the form, or a block that takes space.
-/

namespace Ibm704

/-!
# Numbered lists

Words of several lists in one order keep the number of their list.
-/

def numbered {α : Type} (lists : List (List α)) : List (Nat × α) :=
  lists.zipIdx.flatMap fun list => list.1.map fun x => (list.2, x)

section

variable {α β : Type}

theorem numbered_cons (list : List α) (rest : List (List α)) :
    numbered (list :: rest) =
      list.map (fun x => (0, x)) ++ (numbered rest).map fun p => (p.1 + 1, p.2) := by
  unfold numbered
  rw [List.zipIdx_cons, List.flatMap_cons, List.zipIdx_succ, List.flatMap_map, List.map_flatMap]
  simp only [List.map_map]
  rfl

theorem numbered_cons_cons (x : α) (list : List α) (rest : List (List α)) :
    numbered ((x :: list) :: rest) = (0, x) :: numbered (list :: rest) := by
  rw [numbered_cons, numbered_cons, List.map_cons, List.cons_append]

theorem numbered_elements (lists : List (List α)) :
    (numbered lists).map Prod.snd = lists.flatten := by
  induction lists with
  | nil => rfl
  | cons list rest ih =>
      rw [numbered_cons, List.map_append, List.map_map, List.map_map, List.flatten_cons, ← ih]
      congr 1
      exact List.map_id'' (fun _ => rfl) list

theorem numbered_filterMap (f : α → Option β) (lists : List (List α)) :
    (numbered lists).filterMap (fun p => (f p.2).map fun y => (p.1, y)) =
      numbered (lists.map (List.filterMap f)) := by
  induction lists with
  | nil => rfl
  | cons list rest ih =>
      rw [List.map_cons, numbered_cons, numbered_cons, ← ih, List.filterMap_append,
        List.filterMap_map, List.filterMap_map, List.map_filterMap, List.map_filterMap]
      congr 1
      apply List.filterMap_congr
      intro p _
      simp only [Function.comp, Option.map_map]
      rfl

theorem head?_zip_of_mem {xs : List α} {ys : List β} {p : α × β} (h : p ∈ (xs.zip ys).head?) :
    p.1 ∈ xs.head? ∧ p.2 ∈ ys.head? := by
  cases xs with
  | nil => cases h
  | cons x xs =>
      cases ys with
      | nil => cases h
      | cons y ys =>
          cases h
          exact ⟨rfl, rfl⟩

theorem mem_numbered {lists : List (List α)} {n : Nat} {x : α} :
    (n, x) ∈ numbered lists ↔ ∃ list, lists[n]? = some list ∧ x ∈ list := by
  simp only [numbered, List.mem_flatMap, List.mem_map, Prod.mk.injEq, Prod.exists,
    List.mem_zipIdx_iff_getElem?]
  constructor
  · rintro ⟨list, i, hlist, y, hy, rfl, rfl⟩
    exact ⟨list, hlist, hy⟩
  · rintro ⟨list, hlist, hx⟩
    exact ⟨list, n, hlist, x, hx, rfl, rfl⟩

theorem numbered_ascending (lists : List (List α)) :
    (numbered lists).Pairwise fun p q => p.1 ≤ q.1 := by
  induction lists with
  | nil => exact List.Pairwise.nil
  | cons list rest ih =>
      rw [numbered_cons, List.pairwise_append]
      refine ⟨?_, ?_, ?_⟩
      · rw [List.pairwise_map]
        exact List.pairwise_of_forall fun _ _ => Nat.le_refl 0
      · rw [List.pairwise_map]
        exact ih.imp fun h => Nat.succ_le_succ h
      · intro p hp q hq
        rcases List.mem_map.mp hp with ⟨x, _, rfl⟩
        exact Nat.zero_le _

end

/-!
# Statements that separate words

Cards that set the counter or the form ask for a new segment, and blocks leave a gap.
-/

namespace Statement

def separates (st : Statement) : Bool :=
  match st.kind with
  | .origin | .full | .absolute => true
  | .blockStart | .blockEnd => st.size != 0
  | _ => false

theorem placements_of_words {st : Statement} (h : st.words = some st.emitted) :
    st.placements = (if st.breaks then [.gap] else []) ++
      if st.emitted = [] ∧ 0 < st.size then [.gap]
      else placedWords st.format st.base st.emitted := by
  unfold placements
  rw [h]
  cases hwords : st.emitted with
  | nil =>
      by_cases hsize : 0 < st.size
      · simp [hsize]
      · simp [hsize, placedWords]
  | cons w rest => simp

end Statement

namespace FirstPass

theorem Placed.breaks {pass : FirstPass} {st : Statement} {result : FirstPass × Statement}
    (h : Placed pass st result) (hchecked : st.Checked) (hfresh : st.breaks = false)
    (hsize : st.size = 0) :
    if st.kind = .origin ∨ st.kind = .full ∨ st.kind = .absolute then
      result.2.breaks = true ∧ result.2.size = 0
    else
      result.2.breaks = false := by
  have hresolved : ∀ {e}, (pass.resolved st e).statement.breaks = false :=
    (resolved_part Statement.breaks fun _ _ => rfl).trans hfresh
  have hresolvedSize : ∀ {e}, (pass.resolved st e).statement.size = 0 :=
    (resolved_part Statement.size fun _ _ => rfl).trans hsize
  cases h with
  | idle hkind =>
      rw [if_neg]
      · exact hfresh
      · intro hbreaks
        rcases hkind with hblocked | hkind | hkind | hkind
        · rcases hchecked.blockable hblocked with h | h | h | h | h <;> simp [h] at hbreaks
        all_goals simp [hkind] at hbreaks
  | words hfree hkind =>
      rcases hkind with ⟨hkind, _⟩ | ⟨hkind | hkind | hkind, _⟩ <;>
        simpa [hkind, reserve] using hfresh
  | block hfree hexprs hkind =>
      rcases hkind with ⟨hkind, _⟩ | ⟨hkind, _⟩ <;> simpa [hkind, reserve] using hresolved
  | equated hfree hexprs hkind => rcases hkind with hkind | hkind <;> simpa [hkind] using hresolved
  | unequated hfree hexprs hkind =>
      rcases hkind with hkind | hkind <;> simpa [hkind] using hresolved
  | origin hfree hexprs hkind => simpa [hkind] using hresolvedSize
  | @repetition e e' hfree hexprs hkind words times hwords htimes =>
      have hboth := Statement.resolve_part words.statement
        (some st.card.operandPosition) pass.location words.scope e'
        Statement.breaks fun _ _ => rfl
      rw [← htimes, hwords] at hboth
      simpa [hkind, reserve] using hboth.trans hresolved
  | anchor hfree hexprs hkind => simpa [hkind] using hresolved
  | finish hfree hkind => simpa [hkind, reserve] using hfresh
  | format hfree hkind =>
      rcases hkind with ⟨hkind, _⟩ | ⟨hkind, _⟩ <;> simp [hkind, setFormat, hsize]

theorem Placed.size_pos {pass : FirstPass} {st : Statement} {result : FirstPass × Statement}
    (h : Placed pass st result) (hsize : st.size = 0) (hpositive : 0 < result.2.size) :
    st.blocked = false ∧
      (st.kind.leavesWords = true ∨ st.kind = .blockStart ∨ st.kind = .blockEnd) := by
  have hresolved : ∀ {e}, (pass.resolved st e).statement.size = 0 :=
    (resolved_part Statement.size fun _ _ => rfl).trans hsize
  have hnone : ∀ {size : Nat} {P : Prop}, size = 0 → 0 < size → P := by
    intro size P hzero hsome
    omega
  cases h with
  | idle => exact hnone hsize hpositive
  | words hfree hkind =>
      rcases hkind with ⟨hkind, _⟩ | ⟨hkind | hkind | hkind, _⟩ <;>
        exact ⟨hfree, Or.inl (by rw [hkind]; rfl)⟩
  | block hfree hexprs hkind =>
      rcases hkind with ⟨hkind, _⟩ | ⟨hkind, _⟩
      · exact ⟨hfree, Or.inr (Or.inl hkind)⟩
      · exact ⟨hfree, Or.inr (Or.inr hkind)⟩
  | equated => exact hnone hresolved hpositive
  | unequated => exact hnone hresolved hpositive
  | origin => exact hnone hresolved hpositive
  | repetition hfree hexprs hkind => exact ⟨hfree, Or.inl (by rw [hkind]; rfl)⟩
  | anchor => exact hnone hresolved hpositive
  | finish hfree hkind => exact ⟨hfree, Or.inl (by rw [hkind]; rfl)⟩
  | format => exact hnone hsize hpositive

end FirstPass

theorem Assembler.Follows.placements {asm : Assembler} {entry : FirstPass.Entry} {st : Statement}
    (h : asm.Follows entry st) :
    st.placements =
      if st.separates then [.gap] else Statement.placedWords st.format st.base st.emitted := by
  have hkind := h.cardPart Statement.kind (fun _ => rfl) fun _ => rfl
  have hsize := h.part Statement.size fun _ => rfl
  have hbreaks : if st.kind = .origin ∨ st.kind = .full ∨ st.kind = .absolute then
      st.breaks = true ∧ st.size = 0 else st.breaks = false := by
    rw [hkind, hsize, h.part Statement.breaks fun _ => rfl]
    exact FirstPass.Placed.breaks h.placed (FirstPass.incoming_checked _ _)
      (FirstPass.incoming_breaks _ _) (FirstPass.incoming_size _ _)
  have hspace : 0 < st.size → st.blocked = false ∧
      (st.kind.leavesWords = true ∨ st.kind = .blockStart ∨ st.kind = .blockEnd) := by
    rw [hkind, hsize, h.cardPart Statement.blocked (fun _ => rfl) fun _ => rfl]
    exact FirstPass.Placed.size_pos h.placed (FirstPass.incoming_size _ _)
  have hwordless : st.kind.leavesWords = false → st.emitted = [] := by
    intro hleaves
    apply List.eq_nil_of_length_eq_zero
    rw [h.emitted_length, Statement.wordCount, if_neg (by simp [hleaves])]
  have hfilled : st.kind ≠ .blockStart → st.kind ≠ .blockEnd →
      ¬(st.emitted = [] ∧ 0 < st.size) := by
    rintro hstart hend ⟨hempty, hpositive⟩
    rcases hspace hpositive with ⟨hfree, hleaves | hkind | hkind⟩
    · have hlength := h.emitted_length
      rw [hempty, Statement.wordCount, if_pos ⟨hfree, hleaves⟩] at hlength
      exact absurd hpositive (hlength ▸ Nat.lt_irrefl 0)
    · exact hstart hkind
    · exact hend hkind
  rw [Statement.placements_of_words h.words, Statement.separates]
  cases hst : st.kind <;> rw [hst] at hbreaks hwordless hfilled
  case origin | full | absolute =>
    rcases hbreaks with ⟨hbreak, hzero⟩
    simp [hbreak, hzero, hwordless rfl, Statement.placedWords]
  case blockStart | blockEnd =>
    have hjoin : st.breaks = false := hbreaks
    simp [hjoin, hwordless rfl, Nat.pos_iff_ne_zero, Statement.placedWords]
  all_goals
    have hjoin : st.breaks = false := hbreaks
    have hfull := hfilled (by simp) (by simp)
    simp [hjoin, hfull]

/-!
# Dividing placements

Two words belong into one segment if the second continues the first and no statement
between them separates.
-/

namespace Placement

def Continues (first second : Format × Nat × Word) : Prop :=
  first.1 = second.1 ∧ second.2.1 = first.2.1 + 1

end Placement

structure Listed (separator : Nat → Prop) (placed : List (Nat × Placement)) : Prop where
  ascending : placed.Pairwise fun p q => p.1 ≤ q.1
  gaps : ∀ n, (n, .gap) ∈ placed → separator n
  words : ∀ n format address w, (n, .word format address w) ∈ placed → ¬separator n
  complete : ∀ p ∈ placed, ∀ n, p.1 < n → separator n → (n, .gap) ∈ placed

theorem Listed.tail {separator : Nat → Prop} {p : Nat × Placement} {rest : List (Nat × Placement)}
    (h : Listed separator (p :: rest)) : Listed separator rest where
  ascending := (List.pairwise_cons.mp h.ascending).2
  gaps n hmem := h.gaps n (List.mem_cons_of_mem p hmem)
  words n format address w hmem := h.words n format address w (List.mem_cons_of_mem p hmem)
  complete := by
    intro q hq n hlt hseparator
    have hle := (List.pairwise_cons.mp h.ascending).1 q hq
    rcases List.mem_cons.mp (h.complete q (List.mem_cons_of_mem p hq) n hlt hseparator) with
      hp | hrest
    · have hnumber : n = p.1 := congrArg Prod.fst hp
      omega
    · exact hrest

def placedContents (placed : List (Nat × Placement)) : List (Nat × Format × Nat × Word) :=
  placed.filterMap fun p => p.2.content?.map fun content => (p.1, content)

def Joined (separator : Nat → Prop) (first second : Nat × Format × Nat × Word) : Prop :=
  Placement.Continues first.2 second.2 ∧ ∀ n, first.1 < n → n < second.1 → ¬separator n

section

variable {separator : Nat → Prop} {n : Nat} {format : Format} {address : Address} {w : Word}
  {rest : List (Nat × Placement)}

theorem Listed.between_words {n' : Nat} {format' : Format} {address' : Address} {w' : Word}
    (h : Listed separator ((n, .word format address w) :: (n', .word format' address' w') :: rest)) :
    ∀ m, n < m → m < n' → ¬separator m := by
  intro m hlow hhigh hseparator
  have hmem := h.complete _ List.mem_cons_self m hlow hseparator
  have hrest : (m, Placement.gap) ∈ rest := by
    simpa using hmem
  have hle := (List.pairwise_cons.mp h.tail.ascending).1 _ hrest
  exact absurd hhigh (Nat.not_lt.mpr hle)

theorem Listed.not_joined_over_gap {n' : Nat} {content : Format × Nat × Word}
    (h : Listed separator ((n, .word format address w) :: (n', .gap) :: rest)) :
    ∀ next ∈ (placedContents rest).head?, ¬Joined separator (n, content) next := by
  intro next hnext hjoined
  have hword := h.words n format address w List.mem_cons_self
  have hgap := h.gaps n' (by simp)
  have hmem : next ∈ placedContents rest := List.mem_of_mem_head? hnext
  rcases List.mem_filterMap.mp hmem with ⟨p, hp, hcontent⟩
  rcases p with ⟨m, placement⟩
  cases placement with
  | gap => cases hcontent
  | word format'' address'' w'' =>
      cases hcontent
      have hlast := h.words m format'' address'' w'' (by simp [hp])
      have hlow := (List.pairwise_cons.mp h.ascending).1 (n', .gap) List.mem_cons_self
      have hhigh := (List.pairwise_cons.mp h.tail.ascending).1 _ hp
      refine hjoined.2 n' (Nat.lt_of_le_of_ne hlow ?_) (Nat.lt_of_le_of_ne hhigh ?_) hgap
      · rintro rfl
        exact hword hgap
      · rintro rfl
        exact hlast hgap

end

/-!
# Segments of placements

Segments are formed from the end of the program, so each step puts a placement in
front: a gap, a word that joins, or a word that starts a segment.
-/

/-- Two pairs of one word, first by segments and then by statements: the segments are one exactly
if the words belong into one segment. -/
def DividedAlike (separator : Nat → Prop)
    (first second : (Nat × Format × Nat × Word) × (Nat × Format × Nat × Word)) : Prop :=
  first.1.1 = second.1.1 ↔ Joined separator first.2 second.2

structure Divided (separator : Nat → Prop) (s : Segmentation)
    (placed : List (Nat × Placement)) : Prop where
  held : Held s.toList (placed.filterMap fun p => p.2.content?)
  alike : ((numbered (s.toList.map Segment.contents)).zip (placedContents placed)).IsChain
    (DividedAlike separator)
  joinable : ∀ segment, s.joinable = some segment →
    ∃ n w rest, placed = (n, .word segment.format segment.first w) :: rest
  closed : s.joinable = none → ∀ p ∈ placed.head?, p.2 = .gap

namespace Divided

variable {separator : Nat → Prop} {s : Segmentation} {n : Nat} {format : Format}
  {address : Address} {w : Word} {rest : List (Nat × Placement)}

theorem nil (separator : Nat → Prop) : Divided separator .empty [] where
  held := Held.nil
  alike := List.IsChain.nil
  joinable := by
    intro segment h
    cases h
  closed := by
    intro _ p hmem
    cases hmem

theorem gap (h : Divided separator s rest) :
    Divided separator (Segmentation.cons .gap s) ((n, .gap) :: rest) where
  held := h.held
  alike := h.alike
  joinable := by
    intro segment hsegment
    cases hsegment
  closed := by
    intro _ p hmem
    cases hmem
    rfl

theorem alike_single {segments : List Segment} {content : Format × Nat × Word}
    (h : ((numbered (segments.map Segment.contents)).zip (placedContents rest)).IsChain
      (DividedAlike separator))
    (hnot : ∀ next ∈ (placedContents rest).head?, ¬Joined separator (n, content) next) :
    ((numbered ([content] :: segments.map Segment.contents)).zip
      ((n, content) :: placedContents rest)).IsChain (DividedAlike separator) := by
  rw [numbered_cons, List.map_singleton, List.singleton_append, List.zip_cons_cons,
    List.isChain_cons]
  constructor
  · intro next hnext
    rcases head?_zip_of_mem hnext with ⟨hsegment, hstatement⟩
    rw [List.head?_map] at hsegment
    rcases Option.map_eq_some_iff.mp hsegment with ⟨p, _, hp⟩
    have hlater : next.1.1 ≠ 0 := by
      rw [← hp]
      exact Nat.succ_ne_zero p.1
    exact ⟨fun hsame => absurd hsame.symm hlater,
      fun hjoined => absurd hjoined (hnot next.2 hstatement)⟩
  · rw [List.zip_map_left, List.isChain_map]
    refine h.imp ?_
    intro first second halike
    simpa [DividedAlike] using halike

theorem alike_join {segment : Segment} {segments : List Segment}
    {content : Format × Nat × Word}
    (h : ((numbered ((segment :: segments).map Segment.contents)).zip
      (placedContents rest)).IsChain (DividedAlike separator))
    (hnonempty : segment.contents ≠ [])
    (hjoined : ∀ next ∈ (placedContents rest).head?, Joined separator (n, content) next) :
    ((numbered ((content :: segment.contents) :: segments.map Segment.contents)).zip
      ((n, content) :: placedContents rest)).IsChain (DividedAlike separator) := by
  rw [numbered_cons_cons, List.zip_cons_cons, List.isChain_cons]
  constructor
  · intro next hnext
    rcases head?_zip_of_mem hnext with ⟨hsegment, hstatement⟩
    cases hcontents : segment.contents with
    | nil => exact absurd hcontents hnonempty
    | cons x others =>
        rw [hcontents, numbered_cons_cons] at hsegment
        have hfirst : next.1 = (0, x) := (Option.some.inj hsegment).symm
        exact ⟨fun _ => hjoined next.2 hstatement, fun _ => by rw [hfirst]⟩
  · exact h

theorem word (h : Divided separator s rest)
    (hlisted : Listed separator ((n, .word format address w) :: rest))
    (hplace : address.val < coreSize) :
    Divided separator (Segmentation.cons (.word format address w) s)
      ((n, .word format address w) :: rest) := by
  have hheld : Held (Segmentation.cons (.word format address w) s).toList
      (((n, .word format address w) :: rest).filterMap fun p => p.2.content?) :=
    Segmentation.cons_held h.held hplace
  rcases Segmentation.single_sound format w hplace with ⟨_, hsingle⟩
  rcases s with ⟨joinable, others⟩
  cases joinable with
  | none =>
      refine ⟨hheld, ?_, ?_, ?_⟩
      · have hnot : ∀ next ∈ (placedContents rest).head?,
            ¬Joined separator (n, format, address.val, w) next := by
          cases rest with
          | nil =>
              intro next hnext
              cases hnext
          | cons p rest =>
              have hgap := h.closed rfl p rfl
              rcases p with ⟨n', placement⟩
              cases hgap
              exact hlisted.not_joined_over_gap
        have halike := alike_single h.alike hnot
        rw [← hsingle] at halike
        exact halike
      · intro segment hsegment
        cases hsegment
        exact ⟨n, w, rest, rfl⟩
      · intro hnone
        cases hnone
  | some segment =>
      rcases h.joinable segment rfl with ⟨n', w', rest', rfl⟩
      by_cases hjoin : segment.format = format ∧ segment.first.val = address.val + 1
      · simp only [Segmentation.cons, if_pos hjoin] at hheld ⊢
        rcases hjoin with ⟨rfl, hfirst⟩
        have hsound := h.held.sound segment List.mem_cons_self
        have hjoined : ∀ next ∈ (placedContents
            ((n', .word segment.format segment.first w') :: rest')).head?,
            Joined separator (n, segment.format, address.val, w) next := by
          intro next hnext
          cases hnext
          exact ⟨⟨rfl, hfirst⟩, hlisted.between_words⟩
        have halike := alike_join h.alike hsound.contents_ne_nil hjoined
        rw [← (Segmentation.join_sound w hsound hfirst).2] at halike
        refine ⟨hheld, halike, ?_, ?_⟩
        · intro longer hlonger
          cases hlonger
          exact ⟨n, w, _, rfl⟩
        · intro hnone
          cases hnone
      · simp only [Segmentation.cons, if_neg hjoin] at hheld ⊢
        have hnot : ∀ next ∈ (placedContents
            ((n', .word segment.format segment.first w') :: rest')).head?,
            ¬Joined separator (n, format, address.val, w) next := by
          intro next hnext hjoined
          cases hnext
          exact hjoin ⟨hjoined.1.1.symm, hjoined.1.2⟩
        have halike := alike_single h.alike hnot
        rw [← hsingle] at halike
        refine ⟨hheld, halike, ?_, ?_⟩
        · intro single hsegment
          cases hsegment
          exact ⟨n, w, _, rfl⟩
        · intro hnone
          cases hnone

theorem of_listed {placed : List (Nat × Placement)} (h : Listed separator placed)
    (hcore : ∀ p ∈ placed, p.2.InCore) :
    Divided separator ((placed.map Prod.snd).foldr Segmentation.cons .empty) placed := by
  induction placed with
  | nil => exact Divided.nil separator
  | cons p rest ih =>
      have hrest := ih h.tail fun q hq => hcore q (List.mem_cons_of_mem p hq)
      have hplace := hcore p List.mem_cons_self
      rcases p with ⟨n, placement⟩
      cases placement with
      | gap => exact hrest.gap
      | word format address w => exact hrest.word h hplace

end Divided

/-!
# Segments of programs

The segments hold the words of the statements, and end exactly where they must.
-/

namespace Segment

def listing (segment : Segment) : List (Format × Nat × Word) :=
  segment.words.mapIdx fun j w => (segment.format, segment.first.val + j, w)

theorem Sound.contents_eq {segment : Segment} (h : segment.Sound) :
    segment.contents = segment.listing := by
  have hbounds := h.bounds
  have htop := h.top
  unfold contents listing wordsFrom
  apply List.ext_getElem
  · simp
  · intro j hj hj'
    have hlength : j < segment.words.length := by simpa using hj'
    have hlt : segment.first.val + j < coreSize := by omega
    simp [Nat.mod_eq_of_lt hlt]

end Segment

namespace Assembler

/-- The statement with this number separates the words before it from those after it. -/
def Separator (asm : Assembler) (n : Nat) : Prop :=
  ∃ st, asm.statements[n]? = some st ∧ st.separates = true

theorem mem_placements {asm : Assembler} {n : Nat} {placement : Placement} :
    (n, placement) ∈ numbered (asm.statements.map Statement.placements) ↔
      ∃ st, asm.statements[n]? = some st ∧ placement ∈ st.placements := by
  rw [mem_numbered]
  simp only [List.getElem?_map, Option.map_eq_some_iff]
  constructor
  · rintro ⟨list, ⟨st, hst, rfl⟩, hmem⟩
    exact ⟨st, hst, hmem⟩
  · rintro ⟨st, hst, hmem⟩
    exact ⟨st.placements, ⟨st, hst, rfl⟩, hmem⟩

theorem segments_listing (asm : Assembler) :
    asm.segments.map Segment.contents = asm.segments.map Segment.listing := by
  apply List.map_congr_left
  intro segment hmem
  exact (asm.segments_held.sound segment hmem).contents_eq

end Assembler

theorem Statement.gap_not_mem_placedWords (format : Format) (base : Address) (words : List Word) :
    Placement.gap ∉ placedWords format base words := by
  induction words generalizing base with
  | nil => exact List.not_mem_nil
  | cons w rest ih =>
      intro hmem
      rcases List.mem_cons.mp hmem with hfirst | hrest
      · cases hfirst
      · exact ih (base.add 1) hrest

theorem Finished.listed {options : Options} {cards : List Card} {asm : Assembler}
    (h : Finished options cards asm) :
    Listed asm.Separator (numbered (asm.statements.map Statement.placements)) := by
  have hplacements : ∀ {n : Nat} {st : Statement}, asm.statements[n]? = some st → st.placements =
      if st.separates then [.gap] else Statement.placedWords st.format st.base st.emitted := by
    intro n st hst
    rcases h.entry_of_mem (List.mem_of_getElem? hst) with ⟨entry, _, _, hfollows⟩
    exact hfollows.placements
  constructor
  · exact numbered_ascending _
  · intro n hmem
    rcases Assembler.mem_placements.mp hmem with ⟨st, hst, hgap⟩
    refine ⟨st, hst, ?_⟩
    rw [hplacements hst] at hgap
    by_contra hseparates
    rw [if_neg hseparates] at hgap
    exact Statement.gap_not_mem_placedWords _ _ _ hgap
  · rintro n format address w hmem ⟨other, hother, hseparates⟩
    rcases Assembler.mem_placements.mp hmem with ⟨st, hst, hword⟩
    rw [hst] at hother
    cases hother
    rw [hplacements hst, if_pos hseparates] at hword
    cases List.mem_singleton.mp hword
  · rintro p _ n _ ⟨st, hst, hseparates⟩
    apply Assembler.mem_placements.mpr
    refine ⟨st, hst, ?_⟩
    rw [hplacements hst, if_pos hseparates]
    exact List.mem_cons_self

theorem Finished.divided {options : Options} {cards : List Card} {asm : Assembler}
    (h : Finished options cards asm) :
    ((numbered (asm.segments.map Segment.listing)).zip
      (numbered (asm.statements.map Statement.contents))).IsChain (DividedAlike asm.Separator) := by
  have hcore : ∀ p ∈ numbered (asm.statements.map Statement.placements), p.2.InCore := by
    rintro ⟨n, placement⟩ hmem
    rcases Assembler.mem_placements.mp hmem with ⟨st, _, hplacement⟩
    exact st.placements_inCore placement hplacement
  have halike := (Divided.of_listed h.listed hcore).alike
  have hcontents : placedContents (numbered (asm.statements.map Statement.placements)) =
      numbered (asm.statements.map Statement.contents) := by
    rw [placedContents, numbered_filterMap, List.map_map]
    congr 1
    apply List.map_congr_left
    intro st _
    exact st.placements_contents
  have hsegments : (((numbered (asm.statements.map Statement.placements)).map
      Prod.snd).foldr Segmentation.cons .empty).toList = asm.segments := by
    rw [numbered_elements]
    rfl
  rw [hsegments, asm.segments_listing, hcontents] at halike
  exact halike

theorem isChain_at {α : Type} {R : α → α → Prop} {xs : List α} (h : xs.IsChain R) {k : Nat}
    {x y : α} (hx : xs[k]? = some x) (hy : xs[k + 1]? = some y) : R x y := by
  rcases List.getElem?_eq_some_iff.mp hx with ⟨_, rfl⟩
  rcases List.getElem?_eq_some_iff.mp hy with ⟨hlt, rfl⟩
  exact List.isChain_iff_getElem.mp h k hlt

/-- The segments hold the words of a program in their order, in their form and at their locations;
each has words, and its bounds are right.  Two words that follow each other are in one segment
exactly if they have one form, the second stands just after the first, and no statement between
theirs separates them. -/
theorem segments_divide_words (options : Options) (source : Text) (lines : List Text)
    (hlines : Source.lines? source = some lines) :
    ∃ asm, assembleSource options source = .ok asm ∧
      asm.segments.flatMap Segment.listing = asm.statements.flatMap Statement.contents ∧
      (∀ segment ∈ asm.segments, segment.first.val < segment.last.val ∧
        segment.last.val ≤ coreSize ∧ segment.last.val - segment.first.val = segment.words.length ∧
        0 < segment.words.length) ∧
      ∀ k s s' i i' word word',
        (numbered (asm.segments.map Segment.listing))[k]? = some (s, word) →
        (numbered (asm.segments.map Segment.listing))[k + 1]? = some (s', word') →
        (numbered (asm.statements.map Statement.contents))[k]? = some (i, word) →
        (numbered (asm.statements.map Statement.contents))[k + 1]? = some (i', word') →
        (s = s' ↔ word.1 = word'.1 ∧ word'.2.1 = word.2.1 + 1 ∧
          ∀ n st, i < n → n < i' → asm.statements[n]? = some st → st.separates = false) := by
  rcases assembleSource_finished options hlines with ⟨asm, hsource, hfinished⟩
  have hheld := asm.segments_held
  refine ⟨asm, hsource, ?_, ?_, ?_⟩
  · rw [← hheld.contents, List.flatMap_def, List.flatMap_def, asm.segments_listing]
  · intro segment hmem
    have hsound := hheld.sound segment hmem
    have hbounds := hsound.bounds
    have hwords : 0 < segment.words.length := List.length_pos_iff.mpr hsound.nonempty
    exact ⟨by omega, hsound.top, by omega, hwords⟩
  · intro k s s' i i' word word' hs hs' hi hi'
    have hfirst : ((numbered (asm.segments.map Segment.listing)).zip
        (numbered (asm.statements.map Statement.contents)))[k]? = some ((s, word), (i, word)) :=
      List.getElem?_zip_eq_some.mpr ⟨hs, hi⟩
    have hsecond : ((numbered (asm.segments.map Segment.listing)).zip
        (numbered (asm.statements.map Statement.contents)))[k + 1]? =
          some ((s', word'), (i', word')) :=
      List.getElem?_zip_eq_some.mpr ⟨hs', hi'⟩
    have halike : s = s' ↔ Joined asm.Separator (i, word) (i', word') :=
      isChain_at hfinished.divided hfirst hsecond
    rw [halike]
    constructor
    · rintro ⟨⟨hformat, haddress⟩, hbetween⟩
      refine ⟨hformat, haddress, ?_⟩
      intro n st hlow hhigh hst
      apply Bool.eq_false_iff.mpr
      intro hseparates
      exact hbetween n hlow hhigh ⟨st, hst, hseparates⟩
    · rintro ⟨hformat, haddress, hbetween⟩
      refine ⟨⟨hformat, haddress⟩, ?_⟩
      rintro n hlow hhigh ⟨st, hst, hseparates⟩
      rw [hbetween n st hlow hhigh hst] at hseparates
      cases hseparates

/-- Segments end at the top of core, at a block, where the form changes and at the end card, but not
at a remark or at a block without space. -/
theorem segments_divide_words_around_top :
    Source.lines? (.ofString
        "\tOCT\t1,2,3\n* GO ON\nA\tBSS\n\tOCT\t4\nB\tBSS\t2\n\tOCT\t5\n\tFUL\n\tOCT\t6\n\tEND\tA\n") =
      some [.ofString "\tOCT\t1,2,3", .ofString "* GO ON", .ofString "A\tBSS", .ofString "\tOCT\t4",
        .ofString "B\tBSS\t2", .ofString "\tOCT\t5", .ofString "\tFUL", .ofString "\tOCT\t6",
        .ofString "\tEND\tA"] ∧
      ∃ asm, assembleSource ⟨.ofNat 32766, .absolute⟩ (.ofString
          "\tOCT\t1,2,3\n* GO ON\nA\tBSS\n\tOCT\t4\nB\tBSS\t2\n\tOCT\t5\n\tFUL\n\tOCT\t6\n\tEND\tA\n") =
          .ok asm ∧
        asm.segments.flatMap Segment.listing = asm.statements.flatMap Statement.contents ∧
        asm.segments.map (fun segment => (segment.format, segment.first.val, segment.last.val)) =
          [(.absolute, 32766, 32768), (.absolute, 0, 2), (.absolute, 4, 5), (.full, 5, 6),
            (.transfer, 6, 7)] ∧
        ∀ n st, 0 < n → n < 3 → asm.statements[n]? = some st → st.separates = false := by
  refine ⟨by decide, ?_⟩
  rcases segments_divide_words ⟨.ofNat 32766, .absolute⟩ (.ofString
      "\tOCT\t1,2,3\n* GO ON\nA\tBSS\n\tOCT\t4\nB\tBSS\t2\n\tOCT\t5\n\tFUL\n\tOCT\t6\n\tEND\tA\n")
    [.ofString "\tOCT\t1,2,3", .ofString "* GO ON", .ofString "A\tBSS", .ofString "\tOCT\t4",
      .ofString "B\tBSS\t2", .ofString "\tOCT\t5", .ofString "\tFUL", .ofString "\tOCT\t6",
      .ofString "\tEND\tA"] (by decide) with ⟨asm, hsource, hwords, _, hdivided⟩
  have hsegments : (assembleSource ⟨.ofNat 32766, .absolute⟩ (.ofString
      "\tOCT\t1,2,3\n* GO ON\nA\tBSS\n\tOCT\t4\nB\tBSS\t2\n\tOCT\t5\n\tFUL\n\tOCT\t6\n\tEND\tA\n")).toOption.map
        (fun asm => asm.segments.map fun segment =>
          (segment.format, segment.first.val, segment.last.val)) =
      some [(.absolute, 32766, 32768), (.absolute, 0, 2), (.absolute, 4, 5), (.full, 5, 6),
        (.transfer, 6, 7)] := by
    decide +kernel
  have hs : (assembleSource ⟨.ofNat 32766, .absolute⟩ (.ofString
      "\tOCT\t1,2,3\n* GO ON\nA\tBSS\n\tOCT\t4\nB\tBSS\t2\n\tOCT\t5\n\tFUL\n\tOCT\t6\n\tEND\tA\n")).toOption.map
        (fun asm => ((numbered (asm.segments.map Segment.listing)).drop 2).take 2) =
      some [(1, .absolute, 0, .ofNat 3), (1, .absolute, 1, .ofNat 4)] := by
    decide +kernel
  have hi : (assembleSource ⟨.ofNat 32766, .absolute⟩ (.ofString
      "\tOCT\t1,2,3\n* GO ON\nA\tBSS\n\tOCT\t4\nB\tBSS\t2\n\tOCT\t5\n\tFUL\n\tOCT\t6\n\tEND\tA\n")).toOption.map
        (fun asm => ((numbered (asm.statements.map Statement.contents)).drop 2).take 2) =
      some [(0, .absolute, 0, .ofNat 3), (3, .absolute, 1, .ofNat 4)] := by
    decide +kernel
  rw [hsource] at hsegments hs hi
  have hat : ∀ {α : Type} {xs : List α} {x y : α}, (xs.drop 2).take 2 = [x, y] →
      xs[2]? = some x ∧ xs[3]? = some y := by
    intro α xs x y h
    have hfirst := congrArg (fun ys => ys[0]?) h
    have hsecond := congrArg (fun ys => ys[1]?) h
    simpa using And.intro hfirst hsecond
  rcases hat (Option.some.inj hs) with ⟨hs, hs'⟩
  rcases hat (Option.some.inj hi) with ⟨hi, hi'⟩
  have hbetween := hdivided 2 1 1 0 3 _ _ hs hs' hi hi'
  exact ⟨asm, hsource, hwords, Option.some.inj hsegments, (hbetween.mp rfl).2.2⟩

end Ibm704
