import DepsManifest.Token.Fault
/-! # Results

Facts about results in sequence, for functions that are written as `do` blocks. They are used in
three ways:

  * to take a block apart: it gives a value exactly if both of its steps do, and a fault exactly if
    the first or the second gives it (`bind_eq_ok`, `bind_eq_error`). So no proof unfolds the
    sequencing itself;
  * to compare two blocks whose faults are of different types, or are different faults: what counts
    is their value, that is, `toOption` (`toOption_bind_congr`);
  * to say of a computation what all of its values have (`Ensures`). Nothing is said of one that
    stops at a fault, and the property goes through a sequence step by step (`Ensures.bind`).

Where a function runs over a list and its results are a list, each result comes from one element
(`exists_of_mem_mapM`).
-/
namespace DepsManifest

variable {ε α β : Type}

theorem bind_eq_ok {x : Except ε α} {f : α → Except ε β} {b : β} :
    (x >>= f) = .ok b ↔ ∃ a, x = .ok a ∧ f a = .ok b := by
  cases x with
  | error e => exact ⟨fun h => (nomatch h), fun ⟨_, h, _⟩ => (nomatch h)⟩
  | ok a => exact ⟨fun h => ⟨a, rfl, h⟩, fun ⟨_, h, hf⟩ => by cases h; exact hf⟩

theorem bind_eq_error {x : Except ε α} {f : α → Except ε β} {e : ε} :
    (x >>= f) = .error e ↔ x = .error e ∨ ∃ a, x = .ok a ∧ f a = .error e := by
  cases x with
  | error e' =>
      constructor
      · rintro ⟨⟩
        exact .inl rfl
      · rintro (⟨⟨⟩⟩ | ⟨_, h, -⟩)
        · rfl
        · cases h
  | ok a =>
      constructor
      · exact fun h => .inr ⟨a, rfl, h⟩
      · rintro (h | ⟨_, ⟨⟩, h⟩)
        · cases h
        · exact h

theorem ok_bind (a : α) (f : α → Except ε β) : (Except.ok a >>= f) = f a := rfl

theorem mapError_eq_ok {ε' : Type} {x : Except ε α} {f : ε → ε'} {a : α} :
    x.mapError f = .ok a ↔ x = .ok a := by
  cases x with
  | error e => exact ⟨fun h => (nomatch h), fun h => (nomatch h)⟩
  | ok b =>
      constructor
      · intro h
        cases h
        rfl
      · intro h
        cases h
        rfl

/-- What is among the results of a function at the elements of a list is its result at one of them.
-/
theorem exists_of_mem_mapM {f : α → Except ε β} {l : List α} {results : List β}
    (h : l.mapM f = .ok results) {b : β} (hb : b ∈ results) : ∃ a ∈ l, f a = .ok b := by
  induction l generalizing results with
  | nil =>
      cases h
      cases hb
  | cons a l ih =>
      rw [List.mapM_cons] at h
      obtain ⟨first, hfirst, hrest⟩ := bind_eq_ok.mp h
      obtain ⟨rest, htail, hresults⟩ := bind_eq_ok.mp hrest
      cases hresults
      rcases List.mem_cons.mp hb with rfl | hmem
      · exact ⟨a, List.mem_cons_self, hfirst⟩
      · obtain ⟨a', ha', hresult⟩ := ih htail hmem
        exact ⟨a', List.mem_cons_of_mem a ha', hresult⟩

theorem map_eq_error_iff {x : Except ε α} {f : α → β} {e : ε} :
    x.map f = .error e ↔ x = .error e := by
  cases x with
  | error e' => simp [Except.map]
  | ok a => exact ⟨nofun, nofun⟩

theorem eq_ok_iff_toOption {x : Except ε α} {a : α} : x = .ok a ↔ x.toOption = some a := by
  cases x with
  | error e => exact ⟨fun h => (nomatch h), fun h => (nomatch h)⟩
  | ok b => exact ⟨fun h => by cases h; rfl, fun h => by cases h; rfl⟩

theorem toOption_bind_congr {ε' : Type} {x : Except ε α} {y : Except ε' α}
    {f : α → Except ε β} {g : α → Except ε' β} (hxy : x.toOption = y.toOption)
    (hfg : ∀ a, y = .ok a → (f a).toOption = (g a).toOption) :
    (x >>= f).toOption = (y >>= g).toOption := by
  cases x with
  | error e =>
      cases y with
      | error e' => rfl
      | ok a => cases hxy
  | ok a =>
      cases y with
      | error e' => cases hxy
      | ok b =>
          cases hxy
          exact hfg a rfl

/-! ## What every result has -/

/-- Whatever a computation gives has a property. -/
def Ensures (P : α → Prop) (x : Except ε α) : Prop := ∀ a, x = .ok a → P a

variable {P : α → Prop} {Q : β → Prop}

theorem ensures_ok {a : α} (h : P a) : Ensures P (.ok a : Except ε α) := by
  intro a' ha'
  cases ha'
  exact h

theorem ensures_error (e : ε) : Ensures P (.error e) := by
  intro a ha
  cases ha

theorem Ensures.bind {x : Except ε α} {k : α → Except ε β} (h : Ensures P x)
    (hk : ∀ a, P a → Ensures Q (k a)) : Ensures Q (x >>= k) := by
  intro b hb
  obtain ⟨a, ha, hka⟩ := bind_eq_ok.mp hb
  exact hk a (h a ha) b hka

theorem Ensures.imp {P' : α → Prop} {x : Except ε α} (h : Ensures P x) (himp : ∀ a, P a → P' a) :
    Ensures P' x :=
  fun a ha => himp a (h a ha)

end DepsManifest
