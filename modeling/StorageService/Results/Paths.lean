import StorageService.Storage.Canonical

/-!
# The path normaliser

`safe_object_path` strips slashes before it takes the parts of a path.  The parts
are the same without the stripping, so the function can be read off the segments
of the path as it came.
-/

namespace StorageService.Results

open StorageService.Foundation
open StorageService.Storage

def withSlashes (path : Text) : Text := path.map fun c => if c = '\\' then '/' else c

def segments (path : Text) : List Text := (withSlashes path).splitOn '/'

def keptSegments (path : Text) : List Text :=
  (segments path).filter fun part => decide (part ≠ [] ∧ part ≠ ['.'])

def Unusable (path : Text) : Prop := ['.', '.'] ∈ segments path ∨ keptSegments path = []

instance (path : Text) : Decidable (Unusable path) := inferInstanceAs (Decidable (_ ∨ _))

/-! ## Parts and slashes at the ends -/

theorem pathParts_append_cons (s t : Text) :
    pathParts (s ++ '/' :: t) = pathParts s ++ pathParts t := by
  rw [pathParts, List.splitOn_append_cons_self, List.filter_append]
  rfl

theorem pathParts_nil : pathParts [] = [] := by decide

theorem pathParts_dropWhile (s : Text) : pathParts (s.dropWhile isSlash) = pathParts s := by
  induction s with
  | nil => rfl
  | cons c s ih =>
      by_cases hc : c = '/'
      · subst hc
        rw [List.dropWhile_cons_of_pos (by decide), ih]
        have happend := pathParts_append_cons [] s
        rw [pathParts_nil, List.nil_append, List.nil_append] at happend
        exact happend.symm
      · rw [List.dropWhile_cons_of_neg (by simpa [isSlash] using hc)]

theorem pathParts_rdropWhile (s : Text) : pathParts (s.rdropWhile isSlash) = pathParts s := by
  induction s using List.reverseRecOn with
  | nil => rfl
  | append_singleton s c ih =>
      by_cases hc : c = '/'
      · subst hc
        rw [List.rdropWhile_concat_pos _ _ _ (by decide), ih, pathParts_append_cons,
          pathParts_nil, List.append_nil]
      · rw [List.rdropWhile_concat_neg _ _ _ (by simpa [isSlash] using hc)]

theorem pathParts_stripSlash (s : Text) : pathParts (stripSlash s) = pathParts s := by
  rw [stripSlash, trim, pathParts_rdropWhile, pathParts_dropWhile]

theorem pathParts_withSlashes (path : Text) :
    pathParts (stripSlash (withSlashes path)) = keptSegments path := by
  rw [pathParts_stripSlash]
  rfl

/-! ## The normaliser -/

theorem parent_mem_keptSegments {path : Text} :
    ['.', '.'] ∈ keptSegments path ↔ ['.', '.'] ∈ segments path := by
  simp [keptSegments, List.mem_filter]

theorem safeObjectPath_of_unusable {path : Text} (h : Unusable path) :
    ∃ failure, safeObjectPath path = .error failure := by
  simp only [safeObjectPath]
  split_ifs with hempty hdots hparts
  · exact ⟨_, rfl⟩
  · exact ⟨_, rfl⟩
  · exact ⟨_, rfl⟩
  · rw [← withSlashes, pathParts_withSlashes] at hdots hparts
    exact absurd h (not_or.mpr ⟨fun hmem => hdots (parent_mem_keptSegments.mpr hmem), hparts⟩)

theorem safeObjectPath_of_usable {path : Text} (h : ¬Unusable path) :
    safeObjectPath path = .ok (List.intercalate ['/'] (keptSegments path)) := by
  obtain ⟨hdots, hparts⟩ := not_or.mp h
  have hempty : stripSlash (withSlashes path) ≠ [] := by
    intro hnil
    apply hparts
    rw [← pathParts_withSlashes, hnil, pathParts_nil]
  simp only [safeObjectPath]
  rw [← withSlashes, pathParts_withSlashes, if_neg hempty,
    if_neg fun hmem => hdots (parent_mem_keptSegments.mp hmem), if_neg hparts]

/-- `safe_object_path` is an exact normaliser. -/
theorem safeObjectPath_exact (path : Text) :
    ((∃ failure, safeObjectPath path = .error failure) ↔ Unusable path) ∧
    (¬Unusable path →
      safeObjectPath path = .ok (List.intercalate ['/'] (keptSegments path))) ∧
    ∀ name, safeObjectPath path = .ok name →
      safeObjectPath name = .ok name ∧ name.head? ≠ some '/' ∧ name.getLast? ≠ some '/' ∧
        ∀ part ∈ name.splitOn '/', part ≠ [] ∧ part ≠ ['.'] ∧ part ≠ ['.', '.'] := by
  refine ⟨⟨?_, safeObjectPath_of_unusable⟩, safeObjectPath_of_usable, ?_⟩
  · rintro ⟨failure, hfailure⟩
    by_contra husable
    rw [safeObjectPath_of_usable husable] at hfailure
    contradiction
  · intro name hname
    have hcanonical : Canonical name := canonical_of_safeObjectPath hname
    have hends := hcanonical.slash_ends
    refine ⟨hcanonical, ?_, ?_, (segments_of_safeObjectPath hname).2⟩
    · intro hhead
      rw [List.head?_eq_some_head hcanonical.ne_nil] at hhead
      rw [Option.some.inj hhead] at hends
      exact absurd hends.1 (by decide)
    · intro hlast
      rw [List.getLast?_eq_some_getLast hcanonical.ne_nil] at hlast
      rw [Option.some.inj hlast] at hends
      exact absurd hends.2 (by decide)

theorem safeObjectPath_exact_mixed :
    safeObjectPath ['\\', 'a', '/', '.', '/', '/', 'b', '/'] = .ok ['a', '/', 'b'] :=
  (safeObjectPath_exact ['\\', 'a', '/', '.', '/', '/', 'b', '/']).2.1 (by decide)

end StorageService.Results
