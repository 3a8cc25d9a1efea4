import StorageService.Results.ErrorPairs
import StorageService.Results.ErrorQueries

/-!
# What is left in stored error messages

The passes put together, and the cut behind them.  Where the text is made so that
nothing is hidden from a pass, no user information is left in the message and the
passes find nothing in it again.
-/

namespace StorageService.Results

open StorageService.Foundation
open StorageService.Foundation.Regex
open StorageService.Storage
open StorageService.Actions

section ErrorMessages

variable {w : WordClass} {stop mark : Char → Bool} {seen : Bool} {s t : Text}

/-! ## The passes -/

def stripped (w : WordClass) (s : Text) : Text := urlUserinfoRe.sub w (urlQueryRe.sub w s)

def marked (w : WordClass) (s : Text) : Text :=
  longHexRe.sub w (secretPairRe.sub w (jwtRe.sub w (bearerRe.sub w s)))

theorem sanitizeErrorMessage_eq (w : WordClass) (text : Text) :
    sanitizeErrorMessage w text = shortened (marked w (stripped w (oneLine text))) := rfl

theorem oneLine_stripped (h : OneLine s) : OneLine (stripped w s) :=
  oneLine_urlUserinfoRe (oneLine_urlQueryRe h)

theorem oneLine_marked (h : OneLine s) : OneLine (marked w s) :=
  oneLine_of_filtered rfl (oneLine_of_filtered rfl (oneLine_of_filtered rfl (oneLine_bearerRe h)))

theorem rewrites_jwtRe (s : Text) : Rewrites (jwtRe.Keeps w s)
    (fun l d v => TokenShape d ∧ TokenDrop w l d v) filtered [] [] [] s (jwtRe.sub w s) :=
  (Rule.rewrites_sub w jwtRe s).imp (fun _ _ _ h => h) fun _ _ _ => tokenDrop_jwtRe

theorem rewrites_longHexRe (s : Text) : Rewrites (longHexRe.Keeps w s)
    (fun l d v => IsHexToken d ∧ TokenDrop w l d v) filtered [] [] [] s (longHexRe.sub w s) :=
  (Rule.rewrites_sub w longHexRe s).imp (fun _ _ _ h => h) fun _ _ _ => tokenDrop_longHexRe

theorem reaches_of_marked (hends : UrlEnds stop mark) (hline : OneLine s)
    (h : Reaches w seen stop mark (marked w s)) :
    Reaches w seen stop mark s ∨ HidesNow w seen stop mark s := by
  have hbearer := oneLine_bearerRe (w := w) hline
  have hjwt : OneLine (jwtRe.sub w (bearerRe.sub w s)) := oneLine_of_filtered rfl hbearer
  have hpairs := reaches_of_tokens hends (fun _ _ _ hd => hd.2) (rewrites_longHexRe _) h
  rcases reaches_of_pairs hends hjwt hpairs with hreaches | hhides
  · have htokens := reaches_of_tokens hends (fun _ _ _ hd => hd.2) (rewrites_jwtRe _) hreaches
    exact .inl (reaches_of_tokens hends (fun _ _ _ hd => hd.tokenDrop) (rewrites_bearerRe hline)
      htokens)
  · have htokens := hidesNow_of_tokens hends (fun _ _ _ hd => hd.2) (rewrites_jwtRe _) hhides
    exact .inr (hidesNow_of_tokens hends (fun _ _ _ hd => hd.tokenDrop) (rewrites_bearerRe hline)
      htokens)

theorem not_credentialLeft_stripped (h : UsersPlain w t) : ¬CredentialLeft (stripped w t) :=
  not_credentialLeft_sub (usersSeen_sub h)

theorem not_credentialLeft_marked (hline : OneLine t) (husers : UsersPlain w t)
    (hhosts : ¬HidesEnd w isHostEnd (· == '@') t) :
    ¬CredentialLeft (marked w (stripped w t)) := by
  have hleft := not_credentialLeft_stripped husers
  intro hmarked
  rcases reaches_of_marked urlEnds_host (oneLine_stripped hline)
    (credentialLeft_iff (w := w).mp hmarked) with hreaches | hhides
  · exact hleft (credentialLeft_iff.mpr hreaches)
  · have huser := hidesUser_host (fun _ _ _ hd => hd) (rewrites_urlUserinfoRe _) hhides hleft
    exact hhosts (hidesEnd_of_queries (fun _ _ _ hd => hd) urlEnds_host (rewrites_urlQueryRe _)
      (not_reaches_sub t) huser)

theorem not_reaches_marked (hline : OneLine t) (husers : UsersPlain w t)
    (hqueries : ¬HidesEnd w endsUrl startsQuery t) :
    ¬Reaches w true endsUrl startsQuery (marked w (stripped w t)) := by
  intro hmarked
  rcases reaches_of_marked urlEnds_query (oneLine_stripped hline) hmarked with hreaches | hhides
  · exact not_reaches_sub t
      (reaches_of_users (fun _ _ _ hd => hd) (rewrites_urlUserinfoRe _) hreaches)
  · have huser := hidesUser_query (fun _ _ _ hd => hd) (rewrites_urlUserinfoRe _) hhides
      (not_credentialLeft_stripped husers) (not_reaches_sub t)
    exact hqueries
      (hidesEnd_of_queries (fun _ _ _ hd => hd) urlEnds_query (rewrites_urlQueryRe _)
        (not_reaches_sub t) huser)

theorem pairsMarked_marked (hline : OneLine t) (hquotes : ¬QuoteGoesOn w t) :
    PairsMarked w (marked w (stripped w t)) := by
  have hstripped := oneLine_stripped (w := w) hline
  refine pairsMarked_of_hex (fun _ _ _ hd => hd.1) (fun _ _ _ hd => hd.2.toMarkDrop)
    (rewrites_longHexRe _) (pairsMarked_sub
      (oneLine_of_filtered rfl (oneLine_bearerRe hstripped)) fun hruns => hquotes ?_)
  have hbearer := quoteRuns_of_tokens (fun _ _ _ hd => hd.2) (rewrites_jwtRe _) hruns
  have husers := quoteRuns_of_tokens (fun _ _ _ hd => hd.tokenDrop) (rewrites_bearerRe hstripped)
    hbearer
  have hqueries := quoteRuns_of_users (fun _ _ _ hd => hd) (rewrites_urlUserinfoRe _) husers
  exact quoteGoesOn_of_queries (fun _ _ _ hd => hd) (rewrites_urlQueryRe _) (not_reaches_sub t)
    hqueries

theorem noMatch_marked (hline : OneLine s) : bearerRe.NoMatch w (marked w s) ∧
    jwtRe.NoMatch w (marked w s) ∧ longHexRe.NoMatch w (marked w s) := by
  have hjwt : OneLine (jwtRe.sub w (bearerRe.sub w s)) :=
    oneLine_of_filtered rfl (oneLine_bearerRe hline)
  have hlater {rule : Rule} (hrule : Recurs w rule)
      (h : rule.NoMatch w (jwtRe.sub w (bearerRe.sub w s))) : rule.NoMatch w (marked w s) :=
    noMatch_of_marked hrule (fun _ _ _ hd => hd.2.toMarkDrop) (rewrites_longHexRe _)
      (noMatch_of_marked hrule (fun _ _ _ hd => hd.markDrop) (rewrites_secretPairRe hjwt) h)
  refine ⟨hlater recurs_bearerRe ?_, hlater recurs_jwtRe ?_, ?_⟩
  · exact noMatch_of_marked recurs_bearerRe (fun _ _ _ hd => hd.2.toMarkDrop) (rewrites_jwtRe _)
      (noMatch_bearerRe hline)
  · exact noMatch_sub recurs_jwtRe rfl rfl fun _ _ _ hd => (tokenDrop_jwtRe hd).2.toMarkDrop
  · exact noMatch_sub recurs_longHexRe rfl rfl fun _ _ _ hd => (tokenDrop_longHexRe hd).2.toMarkDrop

/-! ## The length -/

theorem length_marked_le (hline : OneLine t) :
    (marked w (stripped w t)).length ≤ markedLength t := by
  have hstripped := oneLine_stripped (w := w) hline
  have hjwt : OneLine (jwtRe.sub w (bearerRe.sub w (stripped w t))) :=
    oneLine_of_filtered rfl (oneLine_bearerRe hstripped)
  calc (marked w (stripped w t)).length ≤ weight 0 0 (marked w (stripped w t)) :=
        length_le_weight _
    _ ≤ weight 0 0 (secretPairRe.sub w (jwtRe.sub w (bearerRe.sub w (stripped w t)))) :=
        weight_le_of_shape (fun _ _ _ hd => tokenShape_isHexToken hd.1) (rewrites_longHexRe _)
    _ ≤ weight 9 0 (jwtRe.sub w (bearerRe.sub w (stripped w t))) :=
        weight_le_of_pairs (rewrites_secretPairRe hjwt)
    _ ≤ weight 9 0 (bearerRe.sub w (stripped w t)) :=
        weight_le_of_shape (fun _ _ _ hd => hd.1) (rewrites_jwtRe _)
    _ ≤ weight 9 2 (stripped w t) := weight_le_of_bearers (rewrites_bearerRe hstripped)
    _ ≤ weight 9 2 (urlQueryRe.sub w t) := weight_le_of_removal (rewrites_urlUserinfoRe (w := w) _)
    _ ≤ weight 9 2 t := weight_le_of_removal (rewrites_urlQueryRe (w := w) _)
    _ = markedLength t := rfl

theorem cutIn_of_marks (hline : OneLine t)
    (h : CutIn w (weight 0 0) List.length (marked w (stripped w t))) :
    ∃ a x m q, t = a ++ (x ++ q) ∧ w.boundary (lastOr none a) x.head? = true ∧ ¬InQuery w a ∧
      Unqueried x m ∧ Fragile w m ∧ leastLength a < errorMessageMax ∧
      errorMessageMax < markedLength (a ++ x) + 12 := by
  have hstripped := oneLine_stripped (w := w) hline
  have hjwt : OneLine (jwtRe.sub w (bearerRe.sub w (stripped w t))) :=
    oneLine_of_filtered rfl (oneLine_bearerRe hstripped)
  have hpairs : CutIn w (weight 0 0) shortLength _ := cutIn_of_marked
    (fun _ _ _ hd => hd.2.toMarkDrop) weight_append weight_append (fun _ => le_rfl)
    (weight_le_of_shape fun _ _ _ hd => tokenShape_isHexToken hd.1)
    (fun h => (shortLength_le_of_hex (fun _ _ _ hd => hd.1) h).trans (shortLength_le_length _))
    (rewrites_longHexRe _) h
  have htokens : CutIn w (weight 9 0) leastLength _ := cutIn_of_marked
    (fun _ _ _ hd => hd.markDrop) weight_append weight_append
    (weight_mono (by omega) le_rfl) weight_le_of_pairs leastLength_le_of_pairs
    (rewrites_secretPairRe hjwt) hpairs
  have hbearer : CutIn w (weight 9 0) leastLength _ := cutIn_of_marked
    (fun _ _ _ hd => hd.2.toMarkDrop) weight_append weight_append (fun _ => le_rfl)
    (weight_le_of_shape fun _ _ _ hd => hd.1)
    (leastLength_le_of_tokens fun _ _ _ hd => ⟨hd.2, hd.1.eight_le⟩) (rewrites_jwtRe _) htokens
  have husers : CutIn w (weight 9 2) leastLength _ := cutIn_of_marked
    (fun _ _ _ hd => hd.tokenDrop.toMarkDrop) weight_append weight_append
    (weight_mono le_rfl (by omega)) weight_le_of_bearers
    (leastLength_le_of_tokens (w := w) fun _ _ _ hd => ⟨hd.tokenDrop, hd.length⟩)
    (rewrites_bearerRe hstripped) hbearer
  exact cutIn_of_queries (fun _ _ _ hd => hd) (rewrites_urlQueryRe _) (not_reaches_sub t)
    (cutIn_of_users (fun _ _ _ hd => hd) (rewrites_urlUserinfoRe _) husers)

/-! ## The cut -/

theorem shortened_cases (s : Text) : s.length ≤ errorMessageMax ∧ shortened s = s ∨
    ∃ p q, s = p ++ q ∧ shortened s = p ++ ['…'] ∧ p.length = errorMessageMax - 1 ∧
      errorMessageMax < s.length := by
  by_cases hlong : errorMessageMax < s.length
  · refine .inr ⟨s.take (errorMessageMax - 1), s.drop (errorMessageMax - 1), ?_, if_pos hlong, ?_,
      hlong⟩
    · rw [List.take_append_drop]
    · rw [List.length_take]
      omega
  · exact .inl ⟨Nat.not_lt.mp hlong, if_neg hlong⟩

theorem append_ellipsis {p u v : Text} (h : p ++ ['…'] = u ++ v) (hu : u.getLast? ≠ some '…') :
    ∃ v', v = v' ++ ['…'] ∧ p = u ++ v' := by
  rcases List.eq_nil_or_concat v with rfl | ⟨v', c, rfl⟩
  · rw [List.append_nil] at h
    rw [← h, List.getLast?_concat] at hu
    exact absurd rfl hu
  · rw [List.concat_eq_append, ← List.append_assoc] at h
    obtain ⟨hp, hc⟩ := List.append_inj' h rfl
    exact ⟨v', by rw [List.concat_eq_append, hc], hp⟩

section Cut

variable {p q : Text} {rule : Rule} {token : Text → Prop} {part : Char → Bool}

theorem reaches_of_cut (hmark : mark '…' = false)
    (h : Reaches w seen stop mark (p ++ ['…'])) : Reaches w seen stop mark (p ++ q) := by
  obtain ⟨x, c, z, ⟨a, scheme, heq, hscheme, hseen⟩, hx, hc⟩ := h
  have hne : c ≠ '…' := by
    rintro rfl
    rw [hmark] at hc
    cases hc
  have hsplit : p ++ ['…'] = a ++ (scheme ++ (schemeEnd ++ (x ++ [c]))) ++ z := by simp [heq]
  obtain ⟨z', rfl, rfl⟩ := append_ellipsis hsplit (by
    rw [← List.append_assoc, ← List.append_assoc, ← List.append_assoc, List.getLast?_concat]
    simpa using hne)
  exact ⟨x, c, z' ++ q, ⟨a, scheme, by simp, hscheme, hseen⟩, hx, hc⟩

theorem noMatch_bearerRe_cut (h : bearerRe.NoMatch w (p ++ q)) :
    bearerRe.NoMatch w (p ++ ['…']) := by
  intro a v hs
  cases hfind : bearerRe.find w (lastOr none a) v with
  | none => rfl
  | some m =>
      obtain ⟨k, d⟩ := m
      obtain ⟨v, rfl, -⟩ := Rule.find_eq_some hfind
      obtain ⟨-, -, -, -, b, u, rfl, -, -, hu, hlength⟩ := find_bearerRe hfind
      have hsplit : p ++ ['…'] = a ++ (k ++ (b ++ u)) ++ v := by simp [hs]
      have hne : u ≠ [] := List.ne_nil_of_length_pos (by omega)
      obtain ⟨v', rfl, rfl⟩ := append_ellipsis hsplit (by
        rw [← List.append_assoc, ← List.append_assoc, List.getLast?_append_of_ne_nil _ hne]
        intro hlast
        exact absurd (hu _ (List.mem_of_getLast? hlast)) (by decide))
      refine absurd (h a (k ++ (b ++ u ++ (v' ++ q))) (by simp)) ?_
      exact Rule.find_again hfind rfl fun hends => by cases hends

/-- A token with all word characters of its kind that follow. -/
theorem token_append (hgrow : ∀ {m c}, token m → part c = true → token (m ++ [c])) {m : Text}
    (hm : token m) (hlast : m.getLast?.any w.isWord = true) {run : Text}
    (hrun : ∀ c ∈ run, part c = true ∧ w.isWord c = true) :
    token (m ++ run) ∧ (m ++ run).getLast?.any w.isWord = true := by
  induction run generalizing m with
  | nil => simpa using ⟨hm, hlast⟩
  | cons c run ih =>
      obtain ⟨⟨hpart, hword⟩, hrun⟩ := List.forall_mem_cons.mp hrun
      have hmore := ih (hgrow hm hpart) (by simpa using hword) hrun
      simpa using hmore

theorem noMatch_token_cut
    (hfind : ∀ {prev k d v}, rule.find w prev (k ++ (d ++ v)) = some (k, d) →
      k = [] ∧ token d ∧ w.boundary prev d.head? = true ∧ w.boundary d.getLast? v.head? = true)
    (hmatch : ∀ {prev d v}, token d → w.boundary prev d.head? = true →
      w.boundary d.getLast? v.head? = true → rule.find w prev (d ++ v) ≠ none)
    (hshape : ∀ {m}, token m → TokenShape m)
    (hgrow : ∀ {m c}, token m → part c = true → token (m ++ [c]))
    (hfragile : ∀ {m c}, token m → w.isWord c = true → part c = false → Fragile w (m ++ [c]))
    (hp : p.length = errorMessageMax - 1) (hcut : ¬CutIn w (weight 0 0) List.length (p ++ q))
    (h : rule.NoMatch w (p ++ q)) : rule.NoMatch w (p ++ ['…']) := by
  intro a v hs
  cases hsome : rule.find w (lastOr none a) v with
  | none => rfl
  | some m =>
      exfalso
      obtain ⟨k, d⟩ := m
      obtain ⟨v, rfl, -⟩ := Rule.find_eq_some hsome
      obtain ⟨rfl, hd, hstart, hend⟩ := hfind hsome
      obtain ⟨hparts, -, -, n, rest, hcons, -⟩ := hshape hd
      have hne : d ≠ [] := by simp [hcons]
      have hsplit : p ++ ['…'] = a ++ d ++ v := by simp [hs]
      obtain ⟨v', rfl, rfl⟩ := append_ellipsis hsplit (by
        rw [List.getLast?_append_of_ne_nil _ hne]
        intro hlast
        exact absurd (hparts _ (List.mem_of_getLast? hlast)).1 (by decide))
      cases v' with
      | cons e v' => exact hmatch hd hstart (v := e :: v' ++ q) hend (h a _ (by simp))
      | nil =>
          have hlast : d.getLast?.any w.isWord = true := by
            simpa [WordClass.boundary, w.ellipsis] using hend
          have hgrown {run t : Text} (hq : q = run ++ t)
              (hrun : ∀ c ∈ run, part c = true ∧ w.isWord c = true)
              (ht : t.head?.any w.isWord = false) : False := by
            obtain ⟨htoken, hword⟩ := token_append hgrow hd hlast hrun
            refine @hmatch (lastOr none a) _ t htoken ?_ ?_ (h a _ (by simp [hq]))
            · simpa [hcons] using hstart
            · rw [WordClass.boundary, hword, ht]
              rfl
          rcases exists_first (fun c => part c = true ∧ w.isWord c = true) q with
            hall | ⟨run, e, t, rfl, hrun, he⟩
          · exact hgrown (List.append_nil q).symm hall rfl
          · by_cases hword : w.isWord e = true
            · obtain ⟨htoken, -⟩ := token_append hgrow hd hlast hrun
              have hlength := length_le_weight (m := 0) (n := 0) (a ++ (d ++ run ++ [e]))
              have hpositive := List.length_pos_iff.mpr hne
              simp only [List.length_append, List.length_cons, List.length_nil, errorMessageMax]
                at hp hlength
              refine hcut ⟨a, d ++ run ++ [e], t, by simp, by simpa [hcons] using hstart,
                hfragile htoken hword (by simpa [hword] using he), ?_, ?_⟩ <;>
              · simp only [errorMessageMax]
                omega
            · exact hgrown rfl hrun (by simpa using hword)

theorem noMatch_jwtRe_cut (hp : p.length = errorMessageMax - 1)
    (hcut : ¬CutIn w (weight 0 0) List.length (p ++ q)) (h : jwtRe.NoMatch w (p ++ q)) :
    jwtRe.NoMatch w (p ++ ['…']) := by
  refine noMatch_token_cut find_jwtRe (fun {prev d v} htoken hstart hend => ?_) tokenShape_isToken
    (fun {m c} hm hc => ?_)
    (fun hm hword hc => .inr ⟨_, _, rfl, hword, .inl ⟨hm, hc⟩⟩) hp hcut h
  · obtain ⟨-, -, -, n, rest, rfl, -⟩ := tokenShape_isToken htoken
    refine Rule.find_ne_none (k := []) (mem_splits_empty.mpr rfl) (mem_splits_jwtRe.mpr
      ⟨rfl, htoken, hstart, ?_⟩)
    rwa [lastOr_of_ne_nil (by simp)]
  · obtain ⟨p₁, p₂, p₃, rfl, hparts⟩ := hm
    simp only [List.forall_mem_cons, List.not_mem_nil, false_implies, implies_true, and_true]
      at hparts
    obtain ⟨h₁, h₂, h₃, hlength⟩ := hparts
    refine ⟨p₁, p₂, p₃ ++ [c], by simp, ?_⟩
    simp only [List.forall_mem_cons, List.not_mem_nil, false_implies, implies_true, and_true]
    refine ⟨h₁, h₂, List.forall_mem_append.mpr ⟨h₃, by simpa using hc⟩, ?_⟩
    rw [List.length_append]
    omega

theorem noMatch_longHexRe_cut (hp : p.length = errorMessageMax - 1)
    (hcut : ¬CutIn w (weight 0 0) List.length (p ++ q)) (h : longHexRe.NoMatch w (p ++ q)) :
    longHexRe.NoMatch w (p ++ ['…']) := by
  refine noMatch_token_cut find_longHexRe (fun {prev d v} htoken hstart hend => ?_)
    tokenShape_isHexToken (fun {m c} hm hc => ?_)
    (fun hm hword hc => .inr ⟨_, _, rfl, hword, .inr ⟨hm, hc⟩⟩) hp hcut h
  · obtain ⟨-, -, -, n, rest, rfl, -⟩ := tokenShape_isHexToken htoken
    refine Rule.find_ne_none (k := []) (mem_splits_empty.mpr rfl) (mem_splits_longHexRe.mpr
      ⟨rfl, htoken, hstart, ?_⟩)
    rwa [lastOr_of_ne_nil (by simp)]
  · obtain ⟨hall, hlength⟩ := hm
    refine ⟨List.forall_mem_append.mpr ⟨hall, by simpa using hc⟩, ?_⟩
    rw [List.length_append]
    omega

theorem getLast?_head_ne {k : Text} (h : SecretHead w k) (a : Text) :
    (a ++ k).getLast? ≠ some '…' := by
  obtain ⟨n, rest, hcons, -⟩ := h.cons
  rw [List.getLast?_append_of_ne_nil _ (by simp [hcons])]
  intro hlast
  exact h.not_mem (c := '…') (by decide) (List.mem_of_getLast? hlast)

/-- A mark that begins early enough is not cut, nor is the character behind it. -/
theorem pairsMarked_cut (hp : p.length = errorMessageMax - 1)
    (hcut : ¬CutIn w (weight 0 0) List.length (p ++ q)) (h : PairsMarked w (p ++ q)) :
    PairsMarked w (p ++ ['…']) := by
  intro a k v hs hboundary hhead hv
  have hsplit : p ++ ['…'] = a ++ k ++ v := by simp [hs]
  obtain ⟨v₁, rfl, rfl⟩ := append_ellipsis hsplit (getLast?_head_ne hhead a)
  rw [List.length_append] at hp
  have hearly : (a ++ k).length + 12 ≤ errorMessageMax := by
    refine Nat.not_lt.mp fun hlong => hcut ⟨a, k, v₁ ++ q, by simp, hboundary, .inl hhead, ?_, ?_⟩
    · simp only [List.length_append, errorMessageMax] at hp ⊢
      omega
    · simpa [weight] using hlong
  have hlength : filtered.length = 10 := rfl
  have hv₁ : filtered.length < v₁.length := by
    simp only [errorMessageMax] at hp hearly
    omega
  obtain ⟨c, v₂, rfl⟩ := List.exists_cons_of_ne_nil (List.ne_nil_of_length_pos (by omega) : v₁ ≠ [])
  obtain ⟨v', heq, hv'⟩ := h a k (c :: v₂ ++ q) (by simp) hboundary hhead hv
  rcases List.append_eq_append_iff.mp heq with ⟨t, ht, -⟩ | ⟨t, ht, rfl⟩
  · have := congrArg List.length ht
    rw [List.length_append] at this
    omega
  · have hne : t ≠ [] := by
      rintro rfl
      rw [ht, List.append_nil] at hv₁
      omega
    refine ⟨t ++ ['…'], by rw [ht, List.append_assoc], ?_⟩
    rw [List.head?_append_of_ne_nil _ hne] at hv' ⊢
    exact hv'

end Cut

/-! ## The message -/

theorem oneLine_sanitized (w : WordClass) (text : Text) : OneLine (sanitizeErrorMessage w text) :=
  oneLine_shortened (oneLine_marked (oneLine_stripped (isOneLine_oneLine text)))

theorem length_sanitized_le (w : WordClass) (text : Text) :
    (sanitizeErrorMessage w text).length ≤ errorMessageMax :=
  length_shortened_le _

theorem not_credentialLeft_sanitized {text : Text} (husers : UsersPlain w (oneLine text))
    (hhosts : ¬HidesEnd w isHostEnd (· == '@') (oneLine text)) :
    ¬CredentialLeft (sanitizeErrorMessage w text) := by
  have hmarked := not_credentialLeft_marked (isOneLine_oneLine text) husers hhosts
  rw [sanitizeErrorMessage_eq]
  rcases shortened_cases (marked w (stripped w (oneLine text))) with
    ⟨-, hsame⟩ | ⟨p, q, hs, hcut, -⟩
  · rwa [hsame]
  · rw [hcut]
    rw [hs] at hmarked
    exact fun hleft => hmarked ((credentialLeft_iff (w := w)).mpr
      (reaches_of_cut (by decide) (credentialLeft_iff.mp hleft)))

/-- Nothing is found a second time. -/
structure NothingFound (w : WordClass) (s : Text) : Prop where
  line : OneLine s
  users : ¬CredentialLeft s
  queries : ¬Reaches w true endsUrl startsQuery s
  bearer : bearerRe.NoMatch w s
  jwt : jwtRe.NoMatch w s
  pairs : PairsMarked w s
  hex : longHexRe.NoMatch w s

theorem NothingFound.sanitize_eq_self (h : NothingFound w s)
    (hlength : s.length ≤ errorMessageMax) : sanitizeErrorMessage w s = s := by
  simp only [sanitizeErrorMessage, oneLine_eq_self h.line,
    (noMatch_urlQueryRe h.queries).sub_eq_self, (noMatch_urlUserinfoRe h.users).sub_eq_self,
    h.bearer.sub_eq_self, h.jwt.sub_eq_self, h.pairs.sub_eq_self, h.hex.sub_eq_self,
    shortened_eq_self hlength]

theorem nothingFound_sanitized {text : Text} (h : Settles w (oneLine text)) :
    NothingFound w (sanitizeErrorMessage w text) := by
  have hline := isOneLine_oneLine text
  obtain ⟨hbearer, hjwt, hhex⟩ := noMatch_marked (w := w) (oneLine_stripped hline)
  have hqueries := not_reaches_marked hline h.users h.queries
  have hpairs := pairsMarked_marked hline h.quotes
  have hmessage := oneLine_sanitized w text
  have husers := not_credentialLeft_sanitized h.users h.hosts
  rw [sanitizeErrorMessage_eq] at hmessage husers ⊢
  rcases shortened_cases (marked w (stripped w (oneLine text))) with
    ⟨-, hsame⟩ | ⟨p, q, hs, hcut, hp, hlong⟩
  · rw [hsame] at hmessage husers ⊢
    exact ⟨hmessage, husers, hqueries, hbearer, hjwt, hpairs, hhex⟩
  · have hle := length_marked_le (w := w) hline
    have hcuts := h.cut.resolve_left (by omega)
    have hno : ¬CutIn w (weight 0 0) List.length (marked w (stripped w (oneLine text))) := by
      intro hin
      obtain ⟨a, x, m, r, ht, hboundary, hquery, hx, hm, hstays, hlate⟩ := cutIn_of_marks hline hin
      rcases hcuts a x m r ht hboundary hquery hx hm with hfar | hearly
      · omega
      · omega
    rw [hcut] at hmessage husers ⊢
    rw [hs] at hbearer hjwt hhex hqueries hpairs hno
    exact ⟨hmessage, husers, fun hreaches => hqueries (reaches_of_cut (by decide) hreaches),
      noMatch_bearerRe_cut hbearer, noMatch_jwtRe_cut hp hno hjwt, pairsMarked_cut hp hno hpairs,
      noMatch_longHexRe_cut hp hno hhex⟩

def asciiWords : WordClass where
  isWord c := decide (c.toNat < 128) && (c.isAlphanum || c == '_')
  ascii c hc := by simp [hc]
  ellipsis := by decide

def userUrl : Text := ['f', 't', 'p', ':', '/', '/', 'u', ':', 'p', '@', 'h']

theorem unqueried_eq {x p : Text} (h : Unqueried x p) (hx : ∀ c ∈ x, startsQuery c = false) :
    x = p := by
  rcases h with rfl | ⟨p, y, d, e, r, rfl, rfl, hy, -⟩
  · rfl
  · rw [hx y (by simp)] at hy
    cases hy

/-- Where nothing separates or quotes a value and no query begins, no mark hides an end. -/
theorem not_hidesEnd (h : ∀ c ∈ t, isSeparator c = false ∧ isQuote c = false) :
    ¬HidesEnd w stop mark t := by
  rintro ⟨a, scheme, user, x, url, c, z, e, q, rfl, -, -, -, -, -, -, ⟨-, b, hb, hends⟩, -⟩
  obtain ⟨hsep, hquote⟩ := h b (by simp [show b ∈ z from hb])
  rcases hends with hends | hends
  · rw [hsep] at hends
    cases hends
  · rw [hquote] at hends
    cases hends

theorem usersPlain_userUrl : UsersPlain w userUrl := by
  intro a scheme x p q ht hscheme _ hx hp
  have hquery : ∀ c ∈ userUrl, startsQuery c = false := forall_mem_of_all (by decide)
  obtain rfl := unqueried_eq hx fun c hc => hquery c (by simp [ht, hc])
  have hat : ∀ n ≤ 11, (userUrl.drop n).take 3 = schemeEnd → n = 3 := by decide
  have hlength := congrArg List.length ht
  have hplace := hat (a ++ scheme).length (by
      simp only [List.length_append, userUrl, List.length_cons, List.length_nil] at hlength ⊢
      omega) (by simp [ht, schemeEnd, List.drop_append, List.take_append])
  have hwhole : ['f', 't', 'p'] ++ (schemeEnd ++ ['u', ':', 'p', '@', 'h']) =
      a ++ scheme ++ (schemeEnd ++ (x ++ '@' :: q)) := by
    simpa [userUrl, schemeEnd] using ht
  obtain ⟨hscheme', hrest⟩ := List.append_inj hwhole (by simpa using hplace.symm)
  have hbehind := List.append_cancel_left hrest
  have hno : '@' ∉ x := by
    have hcount := congrArg (List.count '@') hbehind
    rw [List.count_append, List.count_cons_self,
      show ['u', ':', 'p', '@', 'h'].count '@' = 1 by decide] at hcount
    exact List.count_eq_zero.mp (by omega)
  have hsplit : ['u', ':', 'p'] ++ ['@', 'h'] = x ++ '@' :: q := hbehind
  obtain ⟨rfl, -⟩ := append_inj_of_stop (p := (· != '@')) hsplit (forall_mem_of_all (by decide))
    (fun c hc => by simpa using ne_of_mem_of_not_mem hc hno) (by simp) (by simp)
  refine ⟨rfl, ⟨[], ['f', 't', 'p'], hscheme'.symm,
    ⟨'f', ['t', 'p'], rfl, by decide, forall_mem_of_all (by decide)⟩, ?_⟩,
    forall_mem_of_all (by decide), fun _ => ⟨by decide, by decide⟩⟩
  have hword : w.isWord 'f' = true := isWord_of_isAlphanum (by decide)
  simp [WordClass.boundary, hword]

theorem settles_userUrl : Settles w userUrl := by
  have hplain : ∀ c ∈ userUrl, isSeparator c = false ∧ isQuote c = false :=
    forall_mem_of_all (by decide)
  refine ⟨usersPlain_userUrl, not_hidesEnd hplain, not_hidesEnd hplain, ?_, .inl (by decide)⟩
  rintro ⟨a, x, head, q, u, c, r, ht, -, -, -, -, hq, -⟩
  rw [(hplain q (by simp [ht])).2] at hq
  cases hq

def passwordUrl : Text :=
  ['h', 't', 't', 'p', ':', '/', '/', 'u', ':', 'p', '@', 's', 's', '@', 'h', 'o', 's', 't']

def quotedPair : Text := ['k', 'e', 'y', '=', doubleQuote, 'a', doubleQuote, 'b']

/-- The stored key, class and message of an error. -/
theorem describeError_clean (w : WordClass) (error : JobError)
    (h : ∀ text ∈ [error.text, error.className], Settles w (oneLine text)) :
    (describeError w error).1 = error.errorKey ∧
      (describeError w error).2.1.length ≤ 128 ∧
      OneLine (describeError w error).2.2 ∧
      (describeError w error).2.2.length ≤ errorMessageMax ∧
      ¬CredentialLeft (describeError w error).2.2 := by
  have hsettles : Settles w
      (oneLine (if error.text = [] then error.className else error.text)) := by
    split
    · exact h _ (by simp)
    · exact h _ (by simp)
  have hmessage : (describeError w error).2.2 =
      sanitizeErrorMessage w (if error.text = [] then error.className else error.text) := by
    rw [describeError]
  rw [hmessage]
  exact ⟨rfl, List.length_take_le 128 error.className, oneLine_sanitized w _,
    length_sanitized_le w _, not_credentialLeft_sanitized hsettles.users hsettles.hosts⟩

end ErrorMessages

end StorageService.Results
