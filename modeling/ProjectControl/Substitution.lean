import Mathlib.Data.List.Basic
import Mathlib.Data.Nat.Notation

/-! Replacing what a pattern finds in a text, from left to right: when a text stays as it is, and
when the replacement leaves nothing that a pattern would find. -/

set_option autoImplicit false

namespace Substitution

variable {α : Type}

/-- A match at the head of a text: what is kept of it, and what is replaced. -/
structure Hit (α : Type) where
  kept : List α
  value : List α

/-- What a pattern finds at the head of a text, after a given character. Whether it finds
something is told by what is kept and the first character of the value. -/
structure Pattern (α : Type) where
  find : Option α → List α → Option (Hit α)
  lead : Option α → List α → α → Prop
  found : ∀ {prev text hit}, find prev text = some hit →
    ∃ v value rest, hit.value = v :: value ∧ text = hit.kept ++ hit.value ++ rest ∧
      lead prev hit.kept v
  finds : ∀ {prev text kept v}, kept ++ [v] <+: text → lead prev kept v → find prev text ≠ none

variable {p q : Pattern α} {mark text rest : List α} {prev : Option α}

section Replace

/-- Replaces by `mark` what the pattern finds; the first `n` characters are already done. -/
def replaceFrom (p : Pattern α) (mark : List α) : Option α → ℕ → List α → List α
  | _, _, [] => []
  | _, n + 1, c :: rest => replaceFrom p mark (some c) n rest
  | prev, 0, c :: rest =>
    match p.find prev (c :: rest) with
    | some hit =>
      hit.kept ++ mark ++ replaceFrom p mark (some c) ((hit.kept ++ hit.value).length - 1) rest
    | none => c :: replaceFrom p mark (some c) 0 rest

def replace (p : Pattern α) (mark text : List α) : List α := replaceFrom p mark none 0 text

/-- The last character of a text after another one. -/
def lastOf (prev : Option α) (text : List α) : Option α := text.getLast?.or prev

theorem lastOf_cons (prev : Option α) (c : α) (text : List α) :
    lastOf prev (c :: text) = lastOf (some c) text := by
  cases text with
  | nil => rfl
  | cons d text => rw [lastOf, lastOf, List.getLast?_cons_cons, List.getLast?_cons, Option.some_or,
      Option.some_or]

theorem lastOf_concat (prev : Option α) (text : List α) (c : α) :
    lastOf prev (text ++ [c]) = some c := by
  rw [lastOf, List.getLast?_concat, Option.some_or]

theorem replaceFrom_skip (prev : Option α) (done rest : List α) :
    replaceFrom p mark prev done.length (done ++ rest) =
      replaceFrom p mark (lastOf prev done) 0 rest := by
  induction done generalizing prev with
  | nil => rfl
  | cons c done ih =>
    rw [List.length_cons, List.cons_append, replaceFrom, ih, lastOf_cons]

theorem replaceFrom_plain {c : α} (h : p.find prev (c :: rest) = none) :
    replaceFrom p mark prev 0 (c :: rest) = c :: replaceFrom p mark (some c) 0 rest := by
  rw [replaceFrom, h]

theorem replaceFrom_hit {hit : Hit α} (h : p.find prev text = some hit)
    (htext : text = hit.kept ++ hit.value ++ rest) :
    replaceFrom p mark prev 0 text = hit.kept ++ mark ++
      replaceFrom p mark (lastOf prev (hit.kept ++ hit.value)) 0 rest := by
  obtain ⟨v, value, -, hvalue, -, -⟩ := p.found h
  cases hmatch : hit.kept ++ hit.value with
  | nil =>
    rw [hvalue] at hmatch
    exact absurd hmatch (List.append_ne_nil_of_right_ne_nil _ (List.cons_ne_nil v value))
  | cons c done =>
    rw [hmatch, List.cons_append] at htext
    subst htext
    simp only [replaceFrom, h, hmatch, List.length_cons, Nat.add_sub_cancel]
    rw [replaceFrom_skip, lastOf_cons]

/-- A text is read from left to right: a character that no match begins with, or a match. -/
theorem scan_induction {P : Option α → List α → Prop} (p : Pattern α) (hnil : ∀ prev, P prev [])
    (hplain : ∀ prev c rest, p.find prev (c :: rest) = none → P (some c) rest → P prev (c :: rest))
    (hhit : ∀ prev text hit rest, p.find prev text = some hit →
      text = hit.kept ++ hit.value ++ rest → P (lastOf prev (hit.kept ++ hit.value)) rest →
        P prev text) (prev : Option α) (text : List α) : P prev text := by
  induction hn : text.length using Nat.strongRecOn generalizing prev text with
  | _ n ih =>
    cases text with
    | nil => exact hnil prev
    | cons c rest =>
      cases h : p.find prev (c :: rest) with
      | none => exact hplain prev c rest h (ih rest.length (by rw [← hn]; simp) _ rest rfl)
      | some hit =>
        obtain ⟨v, value, rest', hvalue, htext, -⟩ := p.found h
        have hlength : rest'.length < n := by
          rw [← hn, htext, hvalue, List.length_append, List.length_append, List.length_cons]
          omega
        exact hhit prev _ hit rest' h htext (ih rest'.length hlength _ rest' rfl)

end Replace

section Clean

/-- Nothing is found anywhere in the text. -/
def Clean (p : Pattern α) : Option α → List α → Prop
  | _, [] => True
  | prev, c :: rest => p.find prev (c :: rest) = none ∧ Clean p (some c) rest

theorem replaceFrom_clean (h : Clean p prev text) : replaceFrom p mark prev 0 text = text := by
  induction text generalizing prev with
  | nil => rfl
  | cons c text ih => rw [replaceFrom_plain h.1, ih h.2]

theorem Clean.append_right {a b : List α} (h : Clean p prev (a ++ b)) :
    Clean p (lastOf prev a) b := by
  induction a generalizing prev with
  | nil => exact h
  | cons c a ih =>
    rw [lastOf_cons]
    exact ih h.2

/-- The leads inside a part of a text are found in the text. -/
theorem Clean.no_lead {a b kept : List α} {v : α} (h : Clean p prev (a ++ b))
    (hpre : kept ++ [v] <+: b) : ¬ p.lead (lastOf prev a) kept v := by
  have hb := h.append_right
  cases b with
  | nil =>
    have hnil := List.prefix_nil.mp hpre
    exact absurd hnil (List.append_ne_nil_of_right_ne_nil _ (List.cons_ne_nil v []))
  | cons c b => exact fun hlead => p.finds hpre hlead hb.1

theorem find_eq_none (h : ∀ kept v, kept ++ [v] <+: text → ¬ p.lead prev kept v) :
    p.find prev text = none := by
  cases hfind : p.find prev text with
  | none => rfl
  | some hit =>
    obtain ⟨v, value, rest, hvalue, htext, hlead⟩ := p.found hfind
    refine absurd hlead (h hit.kept v ⟨value ++ rest, ?_⟩)
    rw [htext, hvalue]
    simp

/-- A text that starts with `kept` is clean if the rest is and no lead begins in `kept`. -/
theorem clean_append {a b : List α} (hb : Clean p (lastOf prev a) b)
    (ha : ∀ xs ys kept v, a = xs ++ ys → ys ≠ [] → kept ++ [v] <+: ys ++ b →
      ¬ p.lead (lastOf prev xs) kept v) : Clean p prev (a ++ b) := by
  induction a generalizing prev with
  | nil => exact hb
  | cons c a ih =>
    refine ⟨?_, ih (by rwa [lastOf_cons] at hb) (fun xs ys kept v hsplit hys hpre => ?_)⟩
    · exact find_eq_none (fun kept v hpre => ha [] (c :: a) kept v rfl (List.cons_ne_nil c a) hpre)
    · have h := ha (c :: xs) ys kept v (by rw [hsplit, List.cons_append]) hys hpre
      rwa [lastOf_cons] at h

end Clean

section Marks

/-- A mark that no lead of the pattern can touch: leads have neither its first nor its last
character, and they have one that is not in it. -/
structure Seals (q : Pattern α) (mark : List α) (first last : α) : Prop where
  head : mark.head? = some first
  getLast : mark.getLast? = some last
  opens : ∀ {prev kept v}, q.lead prev kept v → first ∉ kept ++ [v]
  closes : ∀ {prev kept v}, q.lead prev kept v → last ∉ kept
  leaves : ∀ {prev kept v}, q.lead prev kept v → ∃ c ∈ kept, c ∉ mark

variable {first last : α}

theorem clean_mark (hmark : Seals q mark first last) (hrest : Clean q (some last) rest) :
    Clean q prev (mark ++ rest) := by
  have hlast : lastOf prev mark = some last := by rw [lastOf, hmark.getLast, Option.some_or]
  refine clean_append (by rwa [hlast]) (fun xs ys kept v hsplit hys hpre hlead => ?_)
  have hkept : kept <+: ys ++ rest := (List.prefix_append kept [v]).trans hpre
  rcases List.prefix_or_prefix_of_prefix hkept (List.prefix_append ys rest) with h | h
  · obtain ⟨c, hc, hnot⟩ := hmark.leaves hlead
    exact hnot (hsplit ▸ List.mem_append_right xs (h.subset hc))
  · have hend : ys.getLast? = some last := by
      have hall := hmark.getLast
      rwa [hsplit, List.getLast?_append_of_ne_nil _ hys] at hall
    exact hmark.closes hlead (h.subset (List.mem_of_getLast? hend))

theorem prefix_of_notMem {a b xs : List α} {c : α} (h : xs <+: a ++ c :: b) (hc : c ∉ xs) :
    xs <+: a := by
  rcases List.prefix_or_prefix_of_prefix h (List.prefix_append a (c :: b)) with h' | h'
  · exact h'
  · obtain ⟨tail, rfl⟩ := h'
    cases tail with
    | nil =>
      exact ⟨[], by simp only [List.append_nil]⟩
    | cons d tail =>
      have hd := (List.prefix_append_right_inj a).mp h
      obtain rfl : d = c := (List.cons_prefix_cons.mp hd).1
      exact absurd (List.mem_append_right a List.mem_cons_self) hc

/-- What of the replaced text is before a mark stands in the text itself. -/
theorem prefix_replaceFrom (hmark : mark.head? = some first) {xs : List α} (hfirst : first ∉ xs)
    (prev : Option α) (text : List α) (h : xs <+: replaceFrom p mark prev 0 text) :
    xs <+: text := by
  induction prev, text using scan_induction p generalizing xs with
  | hnil prev => exact h
  | hplain prev c rest hfind ih =>
    rw [replaceFrom_plain hfind] at h
    cases xs with
    | nil => exact List.nil_prefix
    | cons d xs =>
      obtain ⟨rfl, hxs⟩ := List.cons_prefix_cons.mp h
      exact List.cons_prefix_cons.mpr ⟨rfl, ih (fun hm => hfirst (List.mem_cons_of_mem _ hm)) hxs⟩
  | hhit prev text hit rest hfind htext ih =>
    obtain ⟨ms, rfl⟩ : ∃ ms, mark = first :: ms := List.head?_eq_some_iff.mp hmark
    rw [replaceFrom_hit hfind htext, List.append_assoc, List.cons_append] at h
    have hkept := prefix_of_notMem h hfirst
    rw [htext, List.append_assoc]
    exact hkept.trans (List.prefix_append _ _)

/-- Whatever `prev'` starts at the head of the text, `prev` starts too. -/
def Follows (q : Pattern α) (prev prev' : Option α) (text : List α) : Prop :=
  ∀ kept v, kept ++ [v] <+: text → q.lead prev' kept v → q.lead prev kept v

/-- No lead of the pattern lies inside a part of a text. -/
def NoLead (q : Pattern α) (prev : Option α) (part : List α) : Prop :=
  ∀ xs ys kept v, part = xs ++ ys → kept ++ [v] <+: ys → ¬ q.lead (lastOf prev xs) kept v

theorem NoLead.follow {part : List α} {prev' : Option α} (h : NoLead q prev part)
    (hfollows : Follows q prev prev' (part ++ rest)) : NoLead q prev' part := by
  intro xs ys kept v hsplit hpre hlead
  cases xs with
  | nil =>
    obtain rfl : part = ys := hsplit
    exact h [] part kept v rfl hpre
      (hfollows kept v (hpre.trans (List.prefix_append part rest)) hlead)
  | cons c xs =>
    rw [lastOf_cons] at hlead
    refine h (c :: xs) ys kept v hsplit hpre ?_
    rwa [lastOf_cons]

/-- What is left after a replacement is clean, if what a scan of the text passes over is. -/
theorem clean_replaceFrom (hmark : Seals q mark first last) {I : Option α → List α → Prop}
    (hplain : ∀ prev c rest, I prev (c :: rest) → p.find prev (c :: rest) = none →
      q.find prev (c :: rest) = none ∧ I (some c) rest)
    (hhit : ∀ prev text hit rest, I prev text → p.find prev text = some hit →
      text = hit.kept ++ hit.value ++ rest → NoLead q prev hit.kept ∧
        Follows q (lastOf prev (hit.kept ++ hit.value)) (some last) rest ∧
        I (lastOf prev (hit.kept ++ hit.value)) rest)
    (prev : Option α) (text : List α) (h : I prev text) :
    Clean q prev (replaceFrom p mark prev 0 text) := by
  suffices hall : ∀ prev', Follows q prev prev' text →
      Clean q prev' (replaceFrom p mark prev 0 text) from hall prev (fun _ _ _ hlead => hlead)
  induction prev, text using scan_induction p with
  | hnil prev => exact fun _ _ => trivial
  | hplain prev c rest hfind ih =>
    intro prev' hfollows
    obtain ⟨hq, hI⟩ := hplain prev c rest h hfind
    have hrest := ih hI (some c) (fun _ _ _ hlead => hlead)
    rw [replaceFrom_plain hfind]
    refine ⟨find_eq_none (fun kept v hpre hlead => ?_), hrest⟩
    rw [← replaceFrom_plain hfind] at hpre
    have htext := prefix_replaceFrom hmark.head (hmark.opens hlead) prev (c :: rest) hpre
    exact q.finds htext (hfollows kept v htext hlead) hq
  | hhit prev text hit rest hfind htext ih =>
    intro prev' hfollows
    obtain ⟨hno, hnext, hI⟩ := hhit prev text hit rest h hfind htext
    have hrest : Clean q (lastOf prev' hit.kept) (mark ++
        replaceFrom p mark (lastOf prev (hit.kept ++ hit.value)) 0 rest) :=
      clean_mark hmark (ih hI (some last) hnext)
    rw [htext, List.append_assoc] at hfollows
    have hno' := hno.follow hfollows
    rw [replaceFrom_hit hfind htext, List.append_assoc]
    refine clean_append hrest (fun xs ys kept v hsplit hys hpre hlead => ?_)
    obtain ⟨ms, rfl⟩ : ∃ ms, mark = first :: ms := List.head?_eq_some_iff.mp hmark.head
    rw [List.cons_append] at hpre
    exact hno' xs ys kept v hsplit (prefix_of_notMem hpre (hmark.opens hlead)) hlead

/-- A match is found again where the mark can start a value. -/
theorem clean_of_replaceFrom (hmark : mark.head? = some first)
    (hagain : ∀ prev text hit, p.find prev text = some hit → p.lead prev hit.kept first)
    (prev : Option α) (text : List α) (h : Clean p prev (replaceFrom p mark prev 0 text)) :
    Clean p prev text := by
  induction prev, text using scan_induction p with
  | hnil prev => trivial
  | hplain prev c rest hfind ih =>
    rw [replaceFrom_plain hfind] at h
    exact ⟨hfind, ih h.2⟩
  | hhit prev text hit rest hfind htext ih =>
    obtain ⟨ms, rfl⟩ : ∃ ms, mark = first :: ms := List.head?_eq_some_iff.mp hmark
    rw [replaceFrom_hit hfind htext, List.append_assoc] at h
    refine absurd (hagain prev text hit hfind) (Clean.no_lead (a := []) h ?_)
    exact (List.prefix_append_right_inj hit.kept).mpr ⟨ms ++ _, rfl⟩

/-- A text that a replacement leaves as it is has no match, if no match is replaced by itself. -/
theorem clean_of_fixed (hne : ∀ prev text hit rest, p.find prev text = some hit →
      text = hit.kept ++ hit.value ++ rest →
      mark ++ replaceFrom p mark (lastOf prev (hit.kept ++ hit.value)) 0 rest ≠ hit.value ++ rest)
    (prev : Option α) (text : List α) (h : replaceFrom p mark prev 0 text = text) :
    Clean p prev text := by
  induction prev, text using scan_induction p with
  | hnil prev => trivial
  | hplain prev c rest hfind ih =>
    rw [replaceFrom_plain hfind] at h
    exact ⟨hfind, ih (List.cons.inj h).2⟩
  | hhit prev text hit rest hfind htext ih =>
    rw [replaceFrom_hit hfind htext] at h
    rw [List.append_assoc] at h
    have hboth := h.trans (htext.trans (List.append_assoc _ _ _))
    exact absurd (List.append_cancel_left hboth) (hne prev text hit rest hfind htext)

/-- A replacement does not take away a character that no match begins with. -/
theorem ne_cons_replaceFrom {c : α} (hc : ∀ prev kept v, p.lead prev kept v → ∃ d ds,
      kept = d :: ds ∧ d ≠ c) (prev : Option α) (text : List α) :
    text ≠ c :: replaceFrom p mark prev 0 text := by
  induction text generalizing prev with
  | nil => exact (List.cons_ne_nil _ _).symm
  | cons d rest ih =>
    intro h
    obtain ⟨rfl, htail⟩ := List.cons.inj h
    have hfind : p.find prev (d :: rest) = none := by
      refine find_eq_none (fun kept v hpre hlead => ?_)
      obtain ⟨d', ds, rfl, hne⟩ := hc prev kept v hlead
      rw [List.cons_append] at hpre
      exact hne (List.cons_prefix_cons.mp hpre).1
    rw [replaceFrom_plain hfind] at htail
    exact ih (some d) htail

end Marks

end Substitution
