import GoConventions.Fix.Patch
import GoConventions.Proofs.Order.Sorted
import Mathlib.Data.List.Basic

/-!
# Applying patches

Edits are made one after the other, each at the offsets that it has in the original text.  This
module shows that the text obtained is the one in which all edits are made at once (`substituted`),
a description in which the edits have no order.  Making edits from the end of the text is what makes
this work: the edits still to be made lie before all that has been changed
(`substituted_apply`).

## Main definitions

* `substituted`: the text with all edits made at once.

## Main results

* `firstConflict?_eq_none_iff`: when patches can be applied together.
* `foldl_apply_eq_substituted`: edits in descending order are made at once.
* `applyPatches_eq_substituted`: applying patches is simultaneous substitution.
-/

namespace GoConventions

open Std (TransCmp)

/-! ## Patches that can be applied together -/

theorem conflictWith?_eq_none {others : List Patch} {patch : Patch} :
    conflictWith? others patch = none ↔ ∀ other ∈ others, other.overlaps patch = false := by
  simp [conflictWith?, Patch.overlaps_comm patch]

theorem firstConflict?_eq_none_iff {seen patches : List Patch} :
    firstConflict? seen patches = none ↔
      (∀ p ∈ seen, ∀ q ∈ patches, p.overlaps q = false) ∧
        patches.Pairwise fun p q => p.overlaps q = false := by
  induction patches generalizing seen with
  | nil => simp [firstConflict?]
  | cons q patches ih =>
    rw [firstConflict?, Option.or_eq_none_iff, conflictWith?_eq_none, ih, List.pairwise_cons]
    constructor
    · rintro ⟨hq, hseen, hpatches⟩
      refine ⟨fun p hp r hr => ?_, fun r hr => hseen q (by simp) r hr, hpatches⟩
      rcases List.mem_cons.mp hr with rfl | hr
      · exact hq p hp
      · exact hseen p (List.mem_append_left _ hp) r hr
    · rintro ⟨hseen, hq, hpatches⟩
      refine ⟨fun p hp => hseen p hp q (by simp), fun p hp r hr => ?_, hpatches⟩
      rcases List.mem_append.mp hp with hp | hp
      · exact hseen p hp r (List.mem_cons_of_mem q hr)
      · exact List.mem_singleton.mp hp ▸ hq r hr

/-- Patches of which no two overlap are applied. -/
theorem applyPatches_of_pairwise {patches : List Patch} (text : String)
    (h : patches.Pairwise fun p q => p.overlaps q = false) :
    applyPatches text patches =
      .ok ((editsFromEnd patches).foldl (fun text edit => edit.apply text) text) := by
  have hnone : firstConflict? [] patches = none := firstConflict?_eq_none_iff.mpr ⟨by simp, h⟩
  rw [applyPatches, hnone]

/-- Patches do not overlap if none of their edits clash. -/
theorem pairwise_not_overlaps_of_edits {patches : List Patch}
    (h : (patches.flatMap Patch.edits).Pairwise fun e f => e.clashes f = false) :
    patches.Pairwise fun p q => p.overlaps q = false := by
  refine (List.pairwise_flatMap.mp h).2.imp fun {p q} hpq => ?_
  rw [← Bool.not_eq_true, Patch.overlaps_iff]
  rintro ⟨e, he, f, hf, hef⟩
  simp [hpq e he f hf] at hef

/-! ## Making edits at once -/

/-- Whether an edit puts its text for the character at an offset. -/
def TextEdit.covers (edit : TextEdit) (i : Nat) : Bool :=
  edit.span.start.offset ≤ i && i < edit.span.stop.offset

/-- What comes to stand for one offset: the texts of the edits that begin there, and the character
found there unless an edit covers it. -/
def pieceAt (edits : List TextEdit) (s : List Char) (i : Nat) : List Char :=
  (edits.filter fun edit => edit.span.start.offset == (i : Int)).flatMap (·.newText.toList) ++
    if edits.any (·.covers i) then [] else s[i]?.toList

/-- The pieces for the offsets of a text in their order, its end included. -/
def pieces (edits : List TextEdit) (s : List Char) : List Char :=
  (List.range (s.length + 1)).flatMap (pieceAt edits s)

/-- The text with all edits made at once. -/
def substituted (edits : List TextEdit) (text : String) : String :=
  .ofList (pieces edits text.toList)

theorem range'_split {a b c : Nat} (hab : a ≤ b) (hbc : b ≤ c) :
    List.range' a (c - a) = List.range' a (b - a) ++ List.range' b (c - b) := by
  have hlength : c - a = (b - a) + (c - b) := by omega
  rw [hlength, ← List.range'_append_1, Nat.add_sub_cancel' hab]

/-- The pieces of a text without edits are its characters. -/
theorem flatMap_getElem?_toList {s : List Char} {k m : Nat} (h : s.length ≤ k + m) :
    (List.range' k m).flatMap (fun i => s[i]?.toList) = s.drop k := by
  induction m generalizing k with
  | zero => simpa using h
  | succ m ih =>
    rw [List.range'_succ, List.flatMap_cons, ih (by omega)]
    by_cases hk : k < s.length
    · rw [List.getElem?_eq_getElem hk, List.drop_eq_getElem_cons hk]
      rfl
    · rw [List.getElem?_eq_none (by omega), List.drop_eq_nil_of_le (i := k) (by omega),
        List.drop_eq_nil_of_le (by omega)]
      rfl

/-- The pieces before an offset and those from it on. -/
theorem pieces_split (edits : List TextEdit) {s : List Char} {a : Nat} (ha : a ≤ s.length) :
    pieces edits s = (List.range' 0 a).flatMap (pieceAt edits s) ++
      (List.range' a (s.length + 1 - a)).flatMap (pieceAt edits s) := by
  have hsplit := range'_split (Nat.zero_le a) (Nat.le_succ_of_le ha)
  rw [pieces, List.range_eq_range', ← List.flatMap_append]
  exact congrArg _ hsplit

theorem pieceAt_nil (s : List Char) : pieceAt [] s = fun i => s[i]?.toList := by
  funext i
  simp [pieceAt]

theorem substituted_nil (text : String) : substituted [] text = text := by
  rw [substituted, pieces, pieceAt_nil, List.range_eq_range', flatMap_getElem?_toList (by omega)]
  simp

/-- Edits at one offset clash, so there is one at most. -/
theorem filter_start_perm {edits edits' : List TextEdit}
    (hclash : edits.Pairwise fun e f => e.clashes f = false) (h : edits.Perm edits') (i : Nat) :
    (edits.filter fun e => e.span.start.offset == (i : Int)) =
      edits'.filter fun e => e.span.start.offset == (i : Int) := by
  -- Two edits of the filtered list would begin at one offset.
  have hnone : ∀ l : List TextEdit, (l.Pairwise fun e f => e.clashes f = false) →
      (l.filter fun e => e.span.start.offset == (i : Int)).Pairwise fun _ _ => False := by
    intro l hl
    refine List.pairwise_filter.mpr (hl.imp fun hef he hf => ?_)
    simp only [TextEdit.clashes, Bool.or_eq_false_iff, beq_eq_false_iff_ne] at hef
    exact hef.2 ((beq_iff_eq.mp he).trans (beq_iff_eq.mp hf).symm)
  have hclash' : edits'.Pairwise fun e f => e.clashes f = false :=
    h.pairwise hclash fun {e f} hef => by rwa [TextEdit.clashes_comm]
  exact (h.filter _).eq_of_pairwise (fun _ _ _ _ hef => hef.elim) (hnone _ hclash)
    (hnone _ hclash')

/-- **Making edits at once does not depend on their order.** -/
theorem substituted_perm {edits edits' : List TextEdit} (text : String)
    (hclash : edits.Pairwise fun e f => e.clashes f = false) (h : edits.Perm edits') :
    substituted edits text = substituted edits' text := by
  have hpieces : pieceAt edits text.toList = pieceAt edits' text.toList := by
    funext i
    rw [pieceAt, pieceAt, filter_start_perm hclash h i, h.any_eq]
  rw [substituted, substituted, pieces, pieces, hpieces]

/-! ## The edit that begins last -/

theorem toList_apply {edit : TextEdit} {text : String} {a b : Nat}
    (ha : edit.span.start.offset = a) (hb : edit.span.stop.offset = b)
    (hab : a ≤ b) (hlength : b ≤ text.toList.length) :
    (edit.apply text).toList =
      text.toList.take a ++ (edit.newText.toList ++ text.toList.drop b) := by
  rw [String.length_toList] at hlength
  simp [TextEdit.apply, Text.upTo, Text.fromOffset, ha, hb, Nat.min_eq_left hlength,
    Nat.min_eq_left (Nat.le_trans hab hlength)]

/-- Where edits neither begin nor reach any more, a piece is the character. -/
theorem pieceAt_append_of_stop_le (edits : List TextEdit) {later : List TextEdit} (s : List Char)
    {i : Nat} (hlater : ∀ e ∈ later, e.span.start.offset < i ∧ e.span.stop.offset ≤ i) :
    pieceAt (edits ++ later) s i = pieceAt edits s i := by
  have hstart : (later.filter fun e => e.span.start.offset == (i : Int)) = [] :=
    List.filter_eq_nil_iff.mpr fun e he => by
      have hlt := (hlater e he).1
      simp only [beq_iff_eq]
      omega
  have hcovers : later.any (·.covers i) = false :=
    List.any_eq_false.mpr fun e he => by
      have hle := (hlater e he).2
      simp only [TextEdit.covers, Bool.and_eq_true, decide_eq_true_eq]
      omega
  simp [pieceAt, hstart, hcovers]

section Last

variable {edit : TextEdit} {edits : List TextEdit} {a b : Nat}

/-- Before the edit that begins last, the pieces are those of the other edits. -/
theorem pieceAt_cons_of_lt (s : List Char) {i : Nat} (ha : edit.span.start.offset = a)
    (hi : i < a) : pieceAt (edit :: edits) s i = pieceAt edits s i := by
  have hstart : (edit.span.start.offset == (i : Int)) = false := by
    simp only [beq_eq_false_iff_ne]
    omega
  have hcovers : edit.covers i = false := by
    simp only [TextEdit.covers, Bool.and_eq_false_iff, decide_eq_false_iff_not]
    omega
  simp [pieceAt, hstart, hcovers]

/-- The characters that an edit does not cover, from the offset on at which it begins. -/
theorem flatMap_uncovered {s : List Char} (hab : a ≤ b) (hlength : b ≤ s.length) :
    (List.range' a (s.length + 1 - a)).flatMap
      (fun i => if i < b then [] else s[i]?.toList) = s.drop b := by
  have hcovered : (List.range' a (b - a)).flatMap
      (fun i => if i < b then [] else s[i]?.toList) = [] := by
    refine List.flatMap_eq_nil_iff.mpr fun i hi => if_pos ?_
    have hlt := (List.mem_range'_1.mp hi).2
    omega
  have hrest : (List.range' b (s.length + 1 - b)).flatMap
      (fun i => if i < b then [] else s[i]?.toList) =
      (List.range' b (s.length + 1 - b)).flatMap fun i => s[i]?.toList :=
    List.flatMap_congr fun i hi => if_neg (Nat.not_lt.mpr (List.mem_range'_1.mp hi).1)
  rw [range'_split hab (by omega), List.flatMap_append, hcovered, List.nil_append, hrest,
    flatMap_getElem?_toList (by omega)]

/-- From there on, the pieces are its text and the characters that it does not cover. -/
theorem flatMap_pieceAt_singleton (s : List Char) (ha : edit.span.start.offset = a)
    (hb : edit.span.stop.offset = b) (hab : a ≤ b) (hlength : b ≤ s.length) :
    (List.range' a (s.length + 1 - a)).flatMap (pieceAt [edit] s) =
      edit.newText.toList ++ s.drop b := by
  -- The text of the edit stands at the first offset, and at no later one.
  have hfirst : pieceAt [edit] s a =
      edit.newText.toList ++ if a < b then [] else s[a]?.toList := by
    simp [pieceAt, TextEdit.covers, ha, hb]
  have hlater : ∀ i ∈ List.range' (a + 1) (s.length - a),
      pieceAt [edit] s i = if i < b then [] else s[i]?.toList := by
    intro i hi
    have hlt : a < i := (List.mem_range'_1.mp hi).1
    have hne : (a : Int) ≠ i := by omega
    simp [pieceAt, TextEdit.covers, ha, hb, hne, Nat.le_of_lt hlt]
  have hcons : List.range' a (s.length + 1 - a) = a :: List.range' (a + 1) (s.length - a) := by
    rw [show s.length + 1 - a = s.length - a + 1 by omega, List.range'_succ]
  rw [← flatMap_uncovered hab hlength, hcons, List.flatMap_cons, List.flatMap_cons, hfirst,
    List.flatMap_congr hlater, List.append_assoc]

/-- Making the edit that begins last changes no piece before it, and what follows is then its text
and the rest. -/
theorem pieces_splice (s : List Char) (ha : edit.span.start.offset = a)
    (hb : edit.span.stop.offset = b) (hab : a ≤ b) (hlength : b ≤ s.length)
    (hedits : ∀ e ∈ edits, e.span.start.offset < a ∧ e.span.stop.offset ≤ a) :
    pieces edits (s.take a ++ (edit.newText.toList ++ s.drop b)) = pieces (edit :: edits) s := by
  have htake : (s.take a).length = a := by rw [List.length_take]; omega
  have hreach : ∀ i ≥ a, ∀ e ∈ edits, e.span.start.offset < i ∧ e.span.stop.offset ≤ i := by
    intro i hi e he
    have hlast := hedits e he
    omega
  have hbefore : ∀ i ∈ List.range' 0 a,
      pieceAt edits (s.take a ++ (edit.newText.toList ++ s.drop b)) i =
        pieceAt (edit :: edits) s i := by
    intro i hi
    have hlt : i < a := by simpa using hi
    rw [pieceAt_cons_of_lt s ha hlt, pieceAt, pieceAt,
      List.getElem?_append_left (by omega), List.getElem?_take_of_lt hlt]
  -- From `a` on the edits that remain do nothing, to the old text or to the new one.
  have hmade : ∀ t : List Char, (List.range' a (t.length + 1 - a)).flatMap (pieceAt edits t) =
      t.drop a := by
    intro t
    rw [← flatMap_getElem?_toList (show t.length ≤ a + (t.length + 1 - a) by omega), ← pieceAt_nil]
    refine List.flatMap_congr fun i hi => ?_
    exact pieceAt_append_of_stop_le [] t (hreach i (List.mem_range'_1.mp hi).1)
  have hremaining : (List.range' a (s.length + 1 - a)).flatMap (pieceAt (edit :: edits) s) =
      edit.newText.toList ++ s.drop b := by
    rw [← flatMap_pieceAt_singleton s ha hb hab hlength]
    refine List.flatMap_congr fun i hi => ?_
    exact pieceAt_append_of_stop_le [edit] s (hreach i (List.mem_range'_1.mp hi).1)
  rw [pieces_split _ (Nat.le_trans hab hlength), pieces_split (a := a) _
    (by rw [List.length_append]; omega), List.flatMap_congr hbefore, hmade, hremaining,
    List.drop_append_of_le_length (by omega), List.drop_eq_nil_of_le (by omega), List.nil_append]

/-- **The edit that begins last can be made first**, and the others at once after it. -/
theorem substituted_apply (text : String) (ha : edit.span.start.offset = a)
    (hb : edit.span.stop.offset = b) (hab : a ≤ b) (hlength : b ≤ text.toList.length)
    (hedits : ∀ e ∈ edits, e.span.start.offset < a ∧ e.span.stop.offset ≤ a) :
    substituted edits (edit.apply text) = substituted (edit :: edits) text := by
  rw [substituted, substituted, toList_apply ha hb hab hlength,
    pieces_splice text.toList ha hb hab hlength hedits]

end Last

/-! ## All edits, from the end of the text -/

/-- An edit of a range of a text of a given length. -/
structure TextEdit.InText (edit : TextEdit) (length : Nat) : Prop where
  start_nonneg : 0 ≤ edit.span.start.offset
  start_le_stop : edit.span.start.offset ≤ edit.span.stop.offset
  stop_le : edit.span.stop.offset ≤ length

instance (edit : TextEdit) (length : Nat) : Decidable (edit.InText length) :=
  decidable_of_iff (0 ≤ edit.span.start.offset ∧
    edit.span.start.offset ≤ edit.span.stop.offset ∧ edit.span.stop.offset ≤ length)
    ⟨fun ⟨hstart, hle, hstop⟩ => ⟨hstart, hle, hstop⟩,
      fun ⟨hstart, hle, hstop⟩ => ⟨hstart, hle, hstop⟩⟩

/-- Edits that begin one before the other and do not reach one another are made at once. -/
theorem foldl_apply_eq_substituted {edits : List TextEdit} {text : String}
    (hin : ∀ e ∈ edits, e.InText text.length)
    (horder : edits.Pairwise fun e f =>
      f.span.start.offset < e.span.start.offset ∧ f.span.stop.offset ≤ e.span.start.offset) :
    edits.foldl (fun text edit => edit.apply text) text = substituted edits text := by
  induction edits generalizing text with
  | nil => exact (substituted_nil text).symm
  | cons e edits ih =>
    obtain ⟨hedits, horder⟩ := List.pairwise_cons.mp horder
    obtain ⟨hstart, hle, hstop⟩ := hin e (by simp)
    obtain ⟨a, ha⟩ := Int.eq_ofNat_of_zero_le hstart
    obtain ⟨b, hb⟩ := Int.eq_ofNat_of_zero_le (Int.le_trans hstart hle)
    have hab : a ≤ b := by omega
    have hlength : b ≤ text.toList.length := by rw [String.length_toList]; omega
    -- The edits that remain end before `a`, where the text has not been changed.
    have hin' : ∀ f ∈ edits, f.InText (e.apply text).length := by
      intro f hf
      obtain ⟨hstart', hle', -⟩ := hin f (by simp [hf])
      refine ⟨hstart', hle', ?_⟩
      have hreach := (hedits f hf).2
      rw [← String.length_toList, toList_apply ha hb hab hlength, List.length_append,
        List.length_take]
      omega
    rw [List.foldl_cons, ih hin' horder]
    exact substituted_apply text ha hb hab hlength fun f hf => ha ▸ hedits f hf

/-- From the end of the text, edits that do not clash are met one before the other. -/
theorem editsFromEnd_pairwise {patches : List Patch}
    (hle : ∀ e ∈ patches.flatMap Patch.edits, e.span.start.offset ≤ e.span.stop.offset)
    (hclash : (patches.flatMap Patch.edits).Pairwise fun e f => e.clashes f = false) :
    (editsFromEnd patches).Pairwise fun e f =>
      f.span.start.offset < e.span.start.offset ∧
        f.span.stop.offset ≤ e.span.start.offset := by
  -- Sorting gives the order of the starts; that they differ, and that `f` ends in time, follows
  -- because the edits do not clash.
  have htrans : TransCmp fun e f : TextEdit => compare f.span.start.offset e.span.start.offset :=
    inferInstanceAs (TransCmp fun e f : TextEdit => compareOn (·.span.start.offset) f e)
  have hperm : (editsFromEnd patches).Perm (patches.flatMap Patch.edits) := sortBy_perm _ _
  have hclash' : (editsFromEnd patches).Pairwise fun e f => e.clashes f = false :=
    hperm.symm.pairwise hclash fun {e f} hef => by rwa [TextEdit.clashes_comm]
  have hsorted : (editsFromEnd patches).Pairwise fun e f =>
      (compare f.span.start.offset e.span.start.offset).isLE = true := sortBy_pairwise_isLE _
  refine (hclash'.and hsorted).imp_of_mem fun {e f} he _ ⟨hef, hcmp⟩ => ?_
  have hfe : f.span.start.offset ≤ e.span.start.offset := Std.isLE_compare.mp hcmp
  have hordered := hle e (hperm.mem_iff.mp he)
  simp only [TextEdit.clashes, Span.overlaps, Bool.or_eq_false_iff, Bool.and_eq_false_iff,
    decide_eq_false_iff_not, beq_eq_false_iff_ne] at hef
  omega

/-- **Applying patches is simultaneous substitution.**  Patches whose edits are ranges of the text
and do not clash are applied, and the text obtained is the one with all their edits made at once; it
is the same for every order of the patches and of the edits in them. -/
theorem applyPatches_eq_substituted (text : String) (patches : List Patch)
    (hin : ∀ e ∈ patches.flatMap Patch.edits, e.InText text.length)
    (hclash : (patches.flatMap Patch.edits).Pairwise fun e f => e.clashes f = false) :
    applyPatches text patches = .ok (substituted (patches.flatMap Patch.edits) text) ∧
      ∀ reordered : List Patch,
        (reordered.flatMap Patch.edits).Perm (patches.flatMap Patch.edits) →
          applyPatches text reordered = applyPatches text patches := by
  have happly : ∀ ps : List Patch,
      (ps.flatMap Patch.edits).Perm (patches.flatMap Patch.edits) →
        applyPatches text ps = .ok (substituted (patches.flatMap Patch.edits) text) := by
    intro ps hps
    have hsorted : (editsFromEnd ps).Perm (patches.flatMap Patch.edits) :=
      (sortBy_perm _ _).trans hps
    have hclash' : (ps.flatMap Patch.edits).Pairwise fun e f => e.clashes f = false :=
      hps.symm.pairwise hclash fun {e f} hef => by rwa [TextEdit.clashes_comm]
    rw [applyPatches_of_pairwise text (pairwise_not_overlaps_of_edits hclash'),
      foldl_apply_eq_substituted (fun e he => hin e (hsorted.mem_iff.mp he))
        (editsFromEnd_pairwise (fun e he => (hin e (hps.mem_iff.mp he)).start_le_stop) hclash'),
      ← substituted_perm text hclash hsorted.symm]
  have hself := happly patches (List.Perm.refl _)
  exact ⟨hself, fun reordered hperm => (happly reordered hperm).trans hself.symm⟩

/-- A replacement, an insertion at its end, and an insertion at the end of the text. -/
def touchingPatches : List Patch :=
  [⟨"DOC003", [⟨⟨⟨1, 5, 4⟩, ⟨1, 5, 4⟩⟩, ";"⟩, ⟨⟨⟨1, 4, 3⟩, ⟨1, 4, 3⟩⟩, "Y"⟩], "insert"⟩,
    ⟨"NAM001", [⟨⟨⟨1, 2, 1⟩, ⟨1, 4, 3⟩⟩, "x"⟩], "rename"⟩]

theorem applyPatches_touchingPatches :
    (∀ e ∈ touchingPatches.flatMap Patch.edits, e.InText "abcd".length) ∧
      ((touchingPatches.flatMap Patch.edits).Pairwise fun e f => e.clashes f = false) ∧
      applyPatches "abcd" touchingPatches = .ok "axYd;" := by
  have hin : ∀ e ∈ touchingPatches.flatMap Patch.edits, e.InText "abcd".length := by decide
  have hclash : (touchingPatches.flatMap Patch.edits).Pairwise
      fun e f => e.clashes f = false := by decide
  exact ⟨hin, hclash, (applyPatches_eq_substituted "abcd" touchingPatches hin hclash).1⟩

end GoConventions
