import Mathlib.Data.List.Forall2

/-!
# Steps that may fail

What is known of steps that have not failed: a chain of steps, and a step for each element of a
list.

## Main results

* `bind_eq_ok`: the answer of a chain comes of the answer of its first step.
* `mapM_eq_ok_iff`: a mapping answers what its elements answer, one for each.
* `of_mem_mapM`, `of_mapM_eq_error`: the answers of a mapping come from its elements, and so does
  its fault.
* `exists_mapM_eq_ok`, `exists_anyM_eq_ok`: a mapping or a search does not fail if it fails at no
  element.
* `anyM_eq_ok_false_iff`: a search that finds nothing has asked every element.
-/

namespace GoConventions

variable {α β ε : Type}

theorem bind_eq_ok {step : Except ε α} {next : α → Except ε β} {b : β} :
    step >>= next = .ok b ↔ ∃ a, step = .ok a ∧ next a = .ok b := by
  cases step with
  | error e => simp [bind, Except.bind]
  | ok a => simp [bind, Except.bind]

theorem map_eq_ok {f : α → β} {step : Except ε α} {b : β} :
    f <$> step = .ok b ↔ ∃ a, step = .ok a ∧ f a = b := by
  cases step <;> simp [Functor.map, Except.map]

theorem bind_eq_error {step : Except ε α} {next : α → Except ε β} {e : ε} :
    step >>= next = .error e ↔ step = .error e ∨ ∃ a, step = .ok a ∧ next a = .error e := by
  cases step with
  | error e => simp [bind, Except.bind]
  | ok a => simp [bind, Except.bind]

theorem map_map {γ : Type} {f : α → β} {g : β → γ} {step : Except ε α} :
    g <$> f <$> step = (g ∘ f) <$> step := by
  cases step <;> rfl

/-- A statement about the answer of a step that may fail can be checked. -/
instance decidableForallOk {step : Except ε α} {P : α → Prop} [DecidablePred P] :
    Decidable (∀ a, step = .ok a → P a) :=
  match step with
  | .ok a => decidable_of_iff (P a) ⟨fun h _ heq => Except.ok.inj heq ▸ h, fun h => h a rfl⟩
  | .error _ => isTrue nofun

theorem toOption_eq_some {result : Except ε α} {a : α} :
    result.toOption = some a ↔ result = .ok a := by
  cases result with
  | error e => exact iff_of_false nofun nofun
  | ok b => exact ⟨fun h => congrArg Except.ok (Option.some.inj h), fun h => h ▸ rfl⟩

theorem mapM_cons_eq_ok {f : α → Except ε β} {x : α} {xs : List α} {ys : List β} :
    (x :: xs).mapM f = .ok ys ↔
      ∃ y rest, f x = .ok y ∧ xs.mapM f = .ok rest ∧ ys = y :: rest := by
  rw [List.mapM_cons, bind_eq_ok]
  refine exists_congr fun y => ?_
  rw [bind_eq_ok, exists_and_left]
  refine and_congr_right fun _ => exists_congr fun rest => and_congr_right fun _ => ?_
  exact ⟨fun heq => (Except.ok.inj heq).symm, fun heq => congrArg Except.ok heq.symm⟩

/-- A mapping does not fail exactly when it fails at no element, and answers what they answer. -/
theorem mapM_eq_ok_iff {f : α → Except ε β} {xs : List α} {ys : List β} :
    xs.mapM f = .ok ys ↔ List.Forall₂ (fun x y => f x = .ok y) xs ys := by
  induction xs generalizing ys with
  | nil =>
    rw [List.forall₂_nil_left_iff]
    exact ⟨fun h => (Except.ok.inj h).symm, fun h => h ▸ rfl⟩
  | cons x xs ih =>
    rw [mapM_cons_eq_ok, List.forall₂_cons_left_iff]
    exact exists_congr fun y => exists_congr fun rest => by rw [ih]

/-- A mapping that takes only values of one form does not fail exactly when all are of that form. -/
theorem mapM_eq_ok_of_form {γ : Type} {f : α → Except ε β} {form : γ → α} {R : γ → β → Prop}
    (hf : ∀ x y, f x = .ok y ↔ ∃ z, x = form z ∧ R z y) {xs : List α} {ys : List β} :
    xs.mapM f = .ok ys ↔ ∃ zs, xs = zs.map form ∧ List.Forall₂ R zs ys := by
  simp only [mapM_eq_ok_iff, hf]
  constructor
  · intro h
    induction h with
    | nil => exact ⟨[], rfl, .nil⟩
    | cons hfirst _ ih =>
      obtain ⟨z, rfl, hz⟩ := hfirst
      obtain ⟨zs, rfl, hzs⟩ := ih
      exact ⟨z :: zs, rfl, .cons hz hzs⟩
  · rintro ⟨zs, rfl, hzs⟩
    rw [List.forall₂_map_left_iff]
    exact hzs.imp fun z _ hz => ⟨z, rfl, hz⟩

/-- A mapping of which is known when it fails, and what it answers otherwise. -/
theorem mapM_eq_ok_map {f : α → Except ε β} {g : α → β} {P : α → Prop}
    (hf : ∀ x y, f x = .ok y ↔ P x ∧ y = g x) {xs : List α} {ys : List β} :
    xs.mapM f = .ok ys ↔ (∀ x ∈ xs, P x) ∧ ys = xs.map g := by
  induction xs generalizing ys with
  | nil => exact ⟨fun h => ⟨List.forall_mem_nil P, (Except.ok.inj h).symm⟩, fun h => h.2 ▸ rfl⟩
  | cons x xs ih =>
    simp only [mapM_cons_eq_ok, hf, ih, List.forall_mem_cons, List.map_cons]
    constructor
    · rintro ⟨y, rest, ⟨hx, rfl⟩, ⟨hxs, rfl⟩, rfl⟩
      exact ⟨⟨hx, hxs⟩, rfl⟩
    · rintro ⟨⟨hx, hxs⟩, rfl⟩
      exact ⟨g x, xs.map g, ⟨hx, rfl⟩, ⟨hxs, rfl⟩, rfl⟩

/-- What a mapping that does not fail answers comes from the elements that it has been given. -/
theorem of_mem_mapM {f : α → Except ε β} {xs : List α} {ys : List β} {y : β}
    (h : xs.mapM f = .ok ys) (hy : y ∈ ys) : ∃ x ∈ xs, f x = .ok y := by
  induction xs generalizing ys with
  | nil =>
    obtain rfl := Except.ok.inj h
    simp at hy
  | cons x xs ih =>
    obtain ⟨first, rest, hfirst, hrest, rfl⟩ := mapM_cons_eq_ok.mp h
    rcases List.mem_cons.mp hy with rfl | hy
    · exact ⟨x, by simp, hfirst⟩
    · obtain ⟨later, hlater, hresult⟩ := ih hrest hy
      exact ⟨later, List.mem_cons_of_mem x hlater, hresult⟩

/-- A mapping fails as one of its elements does. -/
theorem of_mapM_eq_error {f : α → Except ε β} {xs : List α} {e : ε} (h : xs.mapM f = .error e) :
    ∃ x ∈ xs, f x = .error e := by
  induction xs with
  | nil => cases h
  | cons x xs ih =>
    rw [List.mapM_cons, bind_eq_error] at h
    rcases h with hfirst | ⟨y, -, h⟩
    · exact ⟨x, List.mem_cons_self, hfirst⟩
    · rcases bind_eq_error.mp h with hrest | ⟨ys, -, hdone⟩
      · obtain ⟨later, hlater, hfault⟩ := ih hrest
        exact ⟨later, List.mem_cons_of_mem x hlater, hfault⟩
      · cases hdone

/-- A mapping that has one failure: it fails exactly when it fails at an element. -/
theorem mapM_eq_error_iff {f : α → Except ε β} {xs : List α} {failure : ε} {P : α → Prop}
    (hf : ∀ x ∈ xs, ∀ e, f x = .error e ↔ e = failure ∧ P x) {e : ε} :
    xs.mapM f = .error e ↔ e = failure ∧ ∃ x ∈ xs, P x := by
  constructor
  · intro h
    obtain ⟨x, hx, hfailed⟩ := of_mapM_eq_error h
    obtain ⟨rfl, hholds⟩ := (hf x hx e).mp hfailed
    exact ⟨rfl, x, hx, hholds⟩
  · rintro ⟨rfl, x, hx, hholds⟩
    have hfailed : f x = .error e := (hf x hx e).mpr ⟨rfl, hholds⟩
    cases hall : xs.mapM f with
    | error other =>
      obtain ⟨y, hy, hother⟩ := of_mapM_eq_error hall
      rw [((hf y hy other).mp hother).1]
    | ok ys =>
      have hanswers := mapM_eq_ok_iff.mp hall
      obtain ⟨index, hlt, rfl⟩ := List.mem_iff_getElem.mp hx
      have hanswered := hanswers.get hlt (hanswers.length_eq ▸ hlt)
      rw [List.get_eq_getElem, hfailed] at hanswered
      cases hanswered

/-- A mapping does not fail if it fails at no element. -/
theorem exists_mapM_eq_ok {f : α → Except ε β} {xs : List α}
    (h : ∀ x ∈ xs, ∃ y, f x = .ok y) : ∃ ys, xs.mapM f = .ok ys := by
  induction xs with
  | nil => exact ⟨[], rfl⟩
  | cons x xs ih =>
    obtain ⟨y, hy⟩ := h x List.mem_cons_self
    obtain ⟨ys, hys⟩ := ih fun x hx => h x (List.mem_cons_of_mem _ hx)
    exact ⟨y :: ys, mapM_cons_eq_ok.mpr ⟨y, ys, hy, hys, rfl⟩⟩

/-- A look-up that names its failure. -/
theorem getDM_eq_ok {found : Option α} {e : ε} {a : α} :
    found.getDM (throw e : Except ε α) = .ok a ↔ found = some a := by
  cases found with
  | none => exact iff_of_false nofun nofun
  | some b => exact ⟨fun h => congrArg some (Except.ok.inj h), fun h => h ▸ rfl⟩

/-- A search that finds nothing has asked every element. -/
theorem anyM_eq_ok_false_iff {p : α → Except ε Bool} {xs : List α} :
    xs.anyM p = .ok false ↔ ∀ x ∈ xs, p x = .ok false := by
  induction xs with
  | nil => exact iff_of_true rfl (List.forall_mem_nil _)
  | cons x xs ih =>
    rw [List.anyM_cons, List.forall_mem_cons, bind_eq_ok, ← ih]
    constructor
    · rintro ⟨found, hx, hxs⟩
      cases found with
      | true => cases hxs
      | false => exact ⟨hx, hxs⟩
    · rintro ⟨hx, hxs⟩
      exact ⟨false, hx, hxs⟩

/-- A search does not fail if it fails at no element. -/
theorem exists_anyM_eq_ok {p : α → Except ε Bool} {xs : List α}
    (h : ∀ x ∈ xs, ∃ found, p x = .ok found) : ∃ found, xs.anyM p = .ok found := by
  induction xs with
  | nil => exact ⟨false, rfl⟩
  | cons x xs ih =>
    obtain ⟨found, hx⟩ := h x List.mem_cons_self
    rw [List.anyM_cons, hx]
    cases found with
    | true => exact ⟨true, rfl⟩
    | false => exact ih fun y hy => h y (List.mem_cons_of_mem x hy)

end GoConventions
