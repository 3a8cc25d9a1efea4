import StorageService.Storage.Names

/-!
# Canonical names

The fixed points of `safeObjectPath` are the texts without a backslash whose
parts between slashes are neither empty nor made of one or two dots.  Results of
`safeObjectPath` are of this kind, and so is what joins two of them.
-/

namespace StorageService.Storage

open StorageService.Foundation

/-- A fixed point of `safeObjectPath`. -/
def Canonical (name : Text) : Prop := safeObjectPath name = .ok name

def Segment (part : Text) : Prop := part ≠ [] ∧ part ≠ ['.'] ∧ part ≠ ['.', '.']

instance (part : Text) : Decidable (Segment part) := inferInstanceAs (Decidable (_ ∧ _))

/-! ## Characterisation -/

theorem segments_of_safeObjectPath {path name : Text} (h : safeObjectPath path = .ok name) :
    '\\' ∉ name ∧ ∀ part ∈ name.splitOn '/', Segment part := by
  set raw := stripSlash (path.map fun c => if c = '\\' then '/' else c) with hraw
  have hbackslash : '\\' ∉ raw := by
    intro hmem
    obtain ⟨c, -, hc⟩ := List.mem_map.mp ((trim_isInfix isSlash _).subset hmem)
    by_cases hc' : c = '\\'
    · rw [if_pos hc'] at hc
      exact absurd hc (by decide)
    · rw [if_neg hc'] at hc
      exact hc' hc
  simp only [safeObjectPath, ← hraw] at h
  split_ifs at h with hempty hdots hparts
  obtain rfl := Except.ok.inj h
  have hsplit : (List.intercalate ['/'] (pathParts raw)).splitOn '/' = pathParts raw :=
    List.splitOn_intercalate '/' (fun part hpart =>
      sep_not_mem_of_mem_splitOn (List.mem_filter.mp hpart).1) hparts
  constructor
  · intro hmem
    rcases mem_intercalate hmem with heq | ⟨part, hpart, hc⟩
    · exact absurd heq (by decide)
    · exact hbackslash (mem_of_mem_splitOn (List.mem_filter.mp hpart).1 hc)
  · intro part hpart
    rw [hsplit] at hpart
    have hkept := (List.mem_filter.mp hpart).2
    simp only [decide_eq_true_eq] at hkept
    refine ⟨hkept.1, hkept.2, ?_⟩
    rintro rfl
    exact hdots hpart

/-- Where no part is empty, the text neither starts nor ends with a slash. -/
theorem slash_ends_of_segments {s : Text} (h : ∀ part ∈ s.splitOn '/', part ≠ []) (hs : s ≠ []) :
    isSlash (s.head hs) = false ∧ isSlash (s.getLast hs) = false := by
  constructor
  · cases s with
    | nil => contradiction
    | cons c s =>
        rw [List.head_cons, Bool.eq_false_iff]
        intro hc
        obtain rfl : c = '/' := by simpa [isSlash] using hc
        refine h [] ?_ rfl
        rw [List.splitOn_cons_eq_if_modifyHead]
        simp
  · rw [Bool.eq_false_iff]
    intro hc
    have hlast : s.getLast hs = '/' := by simpa [isSlash] using hc
    refine h [] ?_ rfl
    have hsplit : s.splitOn '/' = (s.dropLast ++ '/' :: []).splitOn '/' := by
      rw [← hlast, List.dropLast_concat_getLast hs]
    rw [hsplit, List.splitOn_append_cons_self]
    simp

theorem canonical_iff {name : Text} :
    Canonical name ↔ '\\' ∉ name ∧ ∀ part ∈ name.splitOn '/', Segment part := by
  constructor
  · exact segments_of_safeObjectPath
  · rintro ⟨hbackslash, hparts⟩
    have hmap : (name.map fun c => if c = '\\' then '/' else c) = name := by
      have heq : ∀ c ∈ name, (if c = '\\' then '/' else c) = id c := by
        intro c hc
        rw [if_neg, id]
        rintro rfl
        exact hbackslash hc
      rw [List.map_congr_left heq, List.map_id]
    have hstrip : stripSlash name = name :=
      (trim_eq_self_iff _ _).mpr (slash_ends_of_segments fun part hpart => (hparts part hpart).1)
    have hpathParts : pathParts name = name.splitOn '/' := by
      refine List.filter_eq_self.mpr fun part hpart => ?_
      simpa using ⟨(hparts part hpart).1, (hparts part hpart).2.1⟩
    have hne : name ≠ [] := by
      rintro rfl
      exact (hparts [] (by simp)).1 rfl
    have hdots : ['.', '.'] ∉ name.splitOn '/' := fun hmem => (hparts _ hmem).2.2 rfl
    simp only [Canonical, safeObjectPath, hmap, hstrip, hpathParts, if_neg hne, if_neg hdots,
      if_neg (List.splitOn_ne_nil '/' name), List.intercalate_splitOn]

theorem canonical_of_safeObjectPath {path name : Text} (h : safeObjectPath path = .ok name) :
    Canonical name :=
  canonical_iff.mpr (segments_of_safeObjectPath h)

namespace Canonical

variable {name folder rest : Text}

theorem ne_nil (h : Canonical name) : name ≠ [] := by
  rintro rfl
  exact ((canonical_iff.mp h).2 [] (by simp)).1 rfl

theorem slash_ends (h : Canonical name) :
    isSlash (name.head h.ne_nil) = false ∧ isSlash (name.getLast h.ne_nil) = false :=
  slash_ends_of_segments (fun part hpart => ((canonical_iff.mp h).2 part hpart).1) h.ne_nil

theorem stripSlash_eq (h : Canonical name) : stripSlash name = name :=
  (trim_eq_self_iff _ _).mpr fun _ => h.slash_ends

theorem append_iff : Canonical (folder ++ '/' :: rest) ↔ Canonical folder ∧ Canonical rest := by
  simp only [canonical_iff, List.splitOn_append_cons_self, List.mem_append, List.mem_cons]
  constructor
  · rintro ⟨hbackslash, hparts⟩
    exact ⟨⟨fun h => hbackslash (.inl h), fun part h => hparts part (.inl h)⟩,
      fun h => hbackslash (.inr (.inr h)), fun part h => hparts part (.inr h)⟩
  · rintro ⟨⟨hbackslash, hparts⟩, hbackslash', hparts'⟩
    refine ⟨?_, fun part h => h.elim (hparts part) (hparts' part)⟩
    rintro (h | h | h)
    · exact hbackslash h
    · exact absurd h (by decide)
    · exact hbackslash' h

end Canonical

/-! ## Trimming canonical names -/

def dropLead (s : Text) : Text := (s.dropWhile isSpace).dropWhile isSlash

def dropTail (s : Text) : Text := (s.rdropWhile isSpace).rdropWhile isSlash

theorem normalizePath_eq (s : Text) : normalizePath s = dropTail (dropLead s) := by
  simp only [normalizePath, stripSlash, strip, trim, dropTail, dropLead, rdropWhile_dropWhile]

theorem dropLead_dropTail (s : Text) : dropLead (dropTail s) = dropTail (dropLead s) := by
  simp only [dropTail, dropLead, rdropWhile_dropWhile]

theorem normalizePath_normalizePath (s : Text) :
    normalizePath (normalizePath s) = dropTail (dropTail (dropLead (dropLead s))) := by
  rw [normalizePath_eq, normalizePath_eq, dropLead_dropTail]

theorem dropLead_suffix (s : Text) : dropLead s <:+ s :=
  (List.dropWhile_suffix _).trans (List.dropWhile_suffix _)

theorem dropTail_prefix (s : Text) : dropTail s <+: s :=
  (List.rdropWhile_prefix _ _).trans (List.rdropWhile_prefix _ _)

theorem dropLead_append {s : Text} (h : dropLead s ≠ []) (t : Text) :
    dropLead (s ++ t) = dropLead s ++ t := by
  have hspace : s.dropWhile isSpace ≠ [] := by
    intro hnil
    simp [dropLead, hnil] at h
  rw [dropLead, dropWhile_append_of_ne_nil hspace, dropWhile_append_of_ne_nil h]
  rfl

def SlashFree (s : Text) : Prop :=
  ∃ h : s ≠ [], isSlash (s.head h) = false ∧ isSlash (s.getLast h) = false

theorem Canonical.slashFree {name : Text} (h : Canonical name) : SlashFree name :=
  ⟨h.ne_nil, h.slash_ends⟩

theorem stripSlash_append_slash {s slash : Text} (h : SlashFree s)
    (hslash : slash = [] ∨ slash = ['/']) : stripSlash (s ++ slash) = s := by
  have hself : stripSlash s = s := (trim_eq_self_iff _ _).mpr fun _ => h.2
  rcases hslash with rfl | rfl
  · rwa [List.append_nil]
  · rw [stripSlash, trim, rdropWhile_dropWhile, List.rdropWhile_concat_pos _ _ _ (by decide),
      ← rdropWhile_dropWhile]
    exact hself

theorem dropTail_below {folder rest : Text} (hfolder : folder ≠ [])
    (hlast : isSlash (folder.getLast hfolder) = false) (hrest : SlashFree rest) :
    ((∀ c ∈ rest, isSpace c = true) ∧ dropTail (folder ++ '/' :: rest) = folder) ∨
      ¬(∀ c ∈ rest, isSpace c = true) ∧
        ∃ rest', SlashFree rest' ∧ dropTail (folder ++ '/' :: rest) = folder ++ '/' :: rest' := by
  have hassoc : folder ++ '/' :: rest = folder ++ ['/'] ++ rest := by simp
  rw [hassoc, dropTail, rdropWhile_append]
  split
  · rename_i hblank
    left
    refine ⟨List.rdropWhile_eq_nil_iff.mp hblank, ?_⟩
    rw [List.rdropWhile_concat_neg _ _ _ (by decide), List.rdropWhile_concat_pos _ _ _ (by decide)]
    exact List.rdropWhile_eq_self_iff.mpr fun _ => by simpa using hlast
  · rename_i hne
    right
    set rest₁ := rest.rdropWhile isSpace with hrest₁
    have hhead : isSlash (rest₁.head hne) = false := by
      rw [(List.rdropWhile_prefix isSpace rest).head hne]
      exact hrest.2.1
    have hne' : rest₁.rdropWhile isSlash ≠ [] := by
      intro hnil
      have := List.rdropWhile_eq_nil_iff.mp hnil _ (List.head_mem hne)
      rw [hhead] at this
      contradiction
    refine ⟨fun hblank => hne (List.rdropWhile_eq_nil_iff.mpr hblank),
      rest₁.rdropWhile isSlash, ⟨hne', ?_, ?_⟩, ?_⟩
    · rw [(List.rdropWhile_prefix isSlash rest₁).head hne']
      exact hhead
    · simpa using List.rdropWhile_last_not isSlash rest₁ hne'
    · rw [rdropWhile_append, if_neg hne']
      simp

theorem canonical_folderPlaceholderName : Canonical folderPlaceholderName := by
  rw [canonical_iff]
  decide +kernel

/-! ## Names without blanks -/

def Unpadded (name : Text) : Prop := ∀ part ∈ name.splitOn '/', strip part = part

instance (name : Text) : Decidable (Unpadded name) := inferInstanceAs (Decidable (∀ _ ∈ _, _))

theorem unpadded_append_iff {folder rest : Text} :
    Unpadded (folder ++ '/' :: rest) ↔ Unpadded folder ∧ Unpadded rest := by
  rw [Unpadded, List.splitOn_append_cons_self, List.forall_mem_append]
  rfl

theorem strip_append_slash {folder rest : Text} (hfolder : strip folder = folder)
    (hrest : strip rest = rest) : strip (folder ++ '/' :: rest) = folder ++ '/' :: rest := by
  simp only [strip, trim_eq_self_iff] at hfolder hrest ⊢
  intro _
  constructor
  · cases folder with
    | nil =>
        have hslash : isSpace '/' = false := by decide
        simpa using hslash
    | cons c folder => exact (hfolder (by simp)).1
  · rw [List.getLast_append_of_ne_nil _ (by simp)]
    cases rest with
    | nil =>
        have hslash : isSpace '/' = false := by decide
        simpa using hslash
    | cons c rest =>
        rw [List.getLast_cons (by simp)]
        exact (hrest (by simp)).2

theorem Unpadded.strip_eq {name : Text} (h : Unpadded name) : strip name = name := by
  have hparts : ∀ parts : List Text, (∀ part ∈ parts, strip part = part) →
      strip (List.intercalate ['/'] parts) = List.intercalate ['/'] parts := by
    intro parts
    induction parts with
    | nil => exact fun _ => rfl
    | cons first parts ih =>
        intro hall
        have hfirst := hall first (List.mem_cons_self ..)
        cases parts with
        | nil => simpa using hfirst
        | cons second parts =>
            rw [List.intercalate_cons_cons, List.append_assoc]
            exact strip_append_slash hfirst
              (ih fun part hpart => hall part (List.mem_cons_of_mem _ hpart))
  have hname := hparts (name.splitOn '/') h
  rwa [List.intercalate_splitOn] at hname

theorem Unpadded.trimmed {name : Text} (h : Unpadded name) (hends : SlashFree name) :
    Trimmed name := by
  refine ⟨?_, hends.1⟩
  rw [normalizePath, h.strip_eq]
  exact (trim_eq_self_iff _ _).mpr fun _ => hends.2

/-- A canonical name none of whose parts has blanks at its ends. -/
structure Plain (name : Text) : Prop where
  canonical : Canonical name
  unpadded : Unpadded name

namespace Plain

variable {name folder rest : Text}

theorem iff_parts : Plain name ↔
    '\\' ∉ name ∧ ∀ part ∈ name.splitOn '/', Segment part ∧ strip part = part := by
  constructor
  · rintro ⟨hcanonical, hunpadded⟩
    obtain ⟨hbackslash, hparts⟩ := canonical_iff.mp hcanonical
    exact ⟨hbackslash, fun part hpart => ⟨hparts part hpart, hunpadded part hpart⟩⟩
  · rintro ⟨hbackslash, hparts⟩
    exact ⟨canonical_iff.mpr ⟨hbackslash, fun part hpart => (hparts part hpart).1⟩,
      fun part hpart => (hparts part hpart).2⟩

instance (name : Text) : Decidable (Plain name) := decidable_of_iff _ iff_parts.symm

theorem append_iff : Plain (folder ++ '/' :: rest) ↔ Plain folder ∧ Plain rest := by
  constructor
  · rintro ⟨hcanonical, hunpadded⟩
    obtain ⟨hfolder, hrest⟩ := Canonical.append_iff.mp hcanonical
    obtain ⟨hfolder', hrest'⟩ := unpadded_append_iff.mp hunpadded
    exact ⟨⟨hfolder, hfolder'⟩, hrest, hrest'⟩
  · rintro ⟨hfolder, hrest⟩
    exact ⟨Canonical.append_iff.mpr ⟨hfolder.canonical, hrest.canonical⟩,
      unpadded_append_iff.mpr ⟨hfolder.unpadded, hrest.unpadded⟩⟩

theorem trimmed (h : Plain name) : Trimmed name := h.unpadded.trimmed h.canonical.slashFree

theorem normalizePath_eq (h : Plain name) : normalizePath name = name := h.trimmed.1

theorem folderPath (h : Plain name) :
    folderPathFromPlaceholder name = [] ∨ Plain (folderPathFromPlaceholder name) := by
  have hself : stripSlash (strip name) = name := h.normalizePath_eq
  simp only [folderPathFromPlaceholder, hself]
  split
  · exact .inl rfl
  · split
    · rename_i hsuffix
      obtain ⟨folder, rfl⟩ := hsuffix
      right
      rw [List.length_append, Nat.add_sub_cancel, List.take_left]
      exact (append_iff.mp h).1
    · exact .inr h

end Plain

/-- The columns for names hold 1024 characters. -/
def nameLimit : Nat := 1024

theorem Canonical.count_lt {name : Text} (h : Canonical name) :
    2 * name.count '/' < name.length := by
  have hparts : 2 * (name.splitOn '/').length ≤
      (List.intercalate ['/'] (name.splitOn '/')).length + 1 :=
    two_mul_length_le_intercalate fun part hpart => ((canonical_iff.mp h).2 part hpart).1
  rw [List.intercalate_splitOn, length_splitOn] at hparts
  omega

end StorageService.Storage
