import ProjectControl.Substitution

/-! Replacing whole matches of a pattern by a mark that may itself begin like a match: when the
replacement leaves nothing that the pattern would find. -/

set_option autoImplicit false

namespace Substitution

variable {α : Type} {p : Pattern α} {mark text rest : List α} {prev : Option α} {first last : α}

section Rewrite

/-- Replaces by `mark` the whole of what the pattern finds; the first `n` characters are already
done. -/
def rewriteFrom (p : Pattern α) (mark : List α) : Option α → ℕ → List α → List α
  | _, _, [] => []
  | _, n + 1, c :: rest => rewriteFrom p mark (some c) n rest
  | prev, 0, c :: rest =>
    match p.find prev (c :: rest) with
    | some hit => mark ++ rewriteFrom p mark (some c) ((hit.kept ++ hit.value).length - 1) rest
    | none => c :: rewriteFrom p mark (some c) 0 rest

def rewrite (p : Pattern α) (mark text : List α) : List α := rewriteFrom p mark none 0 text

theorem rewriteFrom_skip (prev : Option α) (done rest : List α) :
    rewriteFrom p mark prev done.length (done ++ rest) =
      rewriteFrom p mark (lastOf prev done) 0 rest := by
  induction done generalizing prev with
  | nil => rfl
  | cons c done ih => rw [List.length_cons, List.cons_append, rewriteFrom, ih, lastOf_cons]

theorem rewriteFrom_plain {c : α} (h : p.find prev (c :: rest) = none) :
    rewriteFrom p mark prev 0 (c :: rest) = c :: rewriteFrom p mark (some c) 0 rest := by
  rw [rewriteFrom, h]

theorem rewriteFrom_hit {hit : Hit α} (h : p.find prev text = some hit)
    (htext : text = hit.kept ++ hit.value ++ rest) :
    rewriteFrom p mark prev 0 text =
      mark ++ rewriteFrom p mark (lastOf prev (hit.kept ++ hit.value)) 0 rest := by
  obtain ⟨v, value, -, hvalue, -, -⟩ := p.found h
  cases hmatch : hit.kept ++ hit.value with
  | nil =>
    rw [hvalue] at hmatch
    exact absurd hmatch (List.append_ne_nil_of_right_ne_nil _ (List.cons_ne_nil v value))
  | cons c done =>
    rw [hmatch, List.cons_append] at htext
    subst htext
    simp only [rewriteFrom, h, hmatch, List.length_cons, Nat.add_sub_cancel]
    rw [rewriteFrom_skip, lastOf_cons]

theorem rewriteFrom_clean (h : Clean p prev text) : rewriteFrom p mark prev 0 text = text := by
  induction text generalizing prev with
  | nil => rfl
  | cons c text ih => rw [rewriteFrom_plain h.1, ih h.2]

end Rewrite

section Settling

/-- A character with which a match begins. -/
def Begins (p : Pattern α) (d : α) : Prop := ∃ prev text hit, p.find prev (d :: text) = some hit

/-- A mark that makes no new match: no lead begins in it, and a lead that runs into it from the
left was one in the text that the mark replaces. -/
structure Settles (p : Pattern α) (mark : List α) (first last : α) : Prop where
  head : mark.head? = some first
  getLast : mark.getLast? = some last
  inside : ∀ {prev xs ys rest kept v}, mark = xs ++ ys → ys ≠ [] → kept ++ [v] <+: ys ++ rest →
    ¬ p.lead (lastOf prev xs) kept v
  crosses : ∀ {prev kept v before after d}, p.lead prev kept v → before ≠ [] →
    kept ++ [v] = before ++ first :: after → Begins p d →
      ∃ kept' v', kept' ++ [v'] = before ++ [d] ∧ p.lead prev kept' v'

/-- The head of a replaced text is that of the text, or it runs into a mark. -/
theorem prefix_rewriteFrom (hmark : mark.head? = some first) {xs : List α} (prev : Option α)
    (text : List α) (h : xs <+: rewriteFrom p mark prev 0 text) :
    xs <+: text ∨ ∃ before after d, xs = before ++ first :: after ∧ before ++ [d] <+: text ∧
      Begins p d := by
  induction prev, text using scan_induction p generalizing xs with
  | hnil prev => exact .inl h
  | hplain prev c rest hfind ih =>
    rw [rewriteFrom_plain hfind] at h
    cases xs with
    | nil => exact .inl List.nil_prefix
    | cons x xs =>
      obtain ⟨rfl, hxs⟩ := List.cons_prefix_cons.mp h
      rcases ih hxs with hplain | ⟨before, after, d, rfl, hbefore, hd⟩
      · exact .inl (List.cons_prefix_cons.mpr ⟨rfl, hplain⟩)
      · exact .inr ⟨x :: before, after, d, rfl, List.cons_prefix_cons.mpr ⟨rfl, hbefore⟩, hd⟩
  | hhit prev text hit rest hfind htext ih =>
    cases xs with
    | nil => exact .inl List.nil_prefix
    | cons x xs =>
      obtain ⟨ms, rfl⟩ : ∃ ms, mark = first :: ms := List.head?_eq_some_iff.mp hmark
      rw [rewriteFrom_hit hfind htext, List.cons_append] at h
      obtain rfl : x = first := (List.cons_prefix_cons.mp h).1
      obtain ⟨v, value, tail, hvalue, -, -⟩ := p.found hfind
      obtain ⟨d, ds, hmatch⟩ : ∃ d ds, hit.kept ++ hit.value = d :: ds := by
        apply List.exists_cons_of_ne_nil
        rw [hvalue]
        exact List.append_ne_nil_of_right_ne_nil _ (List.cons_ne_nil v value)
      rw [hmatch, List.cons_append] at htext
      refine .inr ⟨[], xs, d, rfl, ?_, prev, ds ++ rest, hit, htext ▸ hfind⟩
      rw [htext]
      exact List.cons_prefix_cons.mpr ⟨rfl, List.nil_prefix⟩

/-- Nothing is found in a text after the matches in it were replaced by such a mark, if what
follows a match can begin no more after the mark than after the match. -/
theorem clean_rewriteFrom (hmark : Settles p mark first last)
    (hnext : ∀ prev text hit rest, p.find prev text = some hit →
      text = hit.kept ++ hit.value ++ rest →
        Follows p (lastOf prev (hit.kept ++ hit.value)) (some last) rest)
    (prev : Option α) (text : List α) : Clean p prev (rewriteFrom p mark prev 0 text) := by
  suffices hall : ∀ prev', Follows p prev prev' text →
      Clean p prev' (rewriteFrom p mark prev 0 text) from hall prev (fun _ _ _ hlead => hlead)
  induction prev, text using scan_induction p with
  | hnil prev => exact fun _ _ => trivial
  | hplain prev c rest hfind ih =>
    intro prev' hfollows
    have hrest := ih (some c) (fun _ _ _ hlead => hlead)
    have hnone : ∀ kept v, kept ++ [v] <+: c :: rest → ¬ p.lead prev' kept v :=
      fun kept v hpre hlead => p.finds hpre (hfollows kept v hpre hlead) hfind
    rw [rewriteFrom_plain hfind]
    refine ⟨find_eq_none (fun kept v hpre hlead => ?_), hrest⟩
    -- the first character stays, so a mark that the lead runs into is further right
    obtain ⟨x, xs, hlist⟩ : ∃ x xs, kept ++ [v] = x :: xs :=
      List.exists_cons_of_ne_nil (List.append_ne_nil_of_right_ne_nil _ (List.cons_ne_nil v []))
    rw [hlist] at hpre
    obtain ⟨rfl, hxs⟩ := List.cons_prefix_cons.mp hpre
    rcases prefix_rewriteFrom hmark.head (some x) rest hxs with
      hplain | ⟨before, after, d, rfl, hbefore, hd⟩
    · have htext : kept ++ [v] <+: x :: rest := hlist ▸ List.cons_prefix_cons.mpr ⟨rfl, hplain⟩
      exact hnone kept v htext hlead
    · obtain ⟨kept', v', heq, hlead'⟩ :=
        hmark.crosses hlead (List.cons_ne_nil x before) hlist hd
      have htext : kept' ++ [v'] <+: x :: rest :=
        heq ▸ List.cons_prefix_cons.mpr ⟨rfl, hbefore⟩
      exact hnone kept' v' htext hlead'
  | hhit prev text hit rest hfind htext ih =>
    intro prev' _
    have hlast : lastOf prev' mark = some last := by rw [lastOf, hmark.getLast, Option.some_or]
    rw [rewriteFrom_hit hfind htext]
    apply clean_append
    · rw [hlast]
      exact ih (some last) (hnext prev text hit rest hfind htext)
    · exact fun xs ys kept v hsplit hys hpre => hmark.inside hsplit hys hpre

end Settling

end Substitution
