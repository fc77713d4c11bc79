import Mathlib.Data.List.Basic

/-! Streams of framed entries: a key, a mark, a content and the mark again. The keys are free of
the mark; where the contents are not, a stream can be read in more than one way. -/

set_option autoImplicit false

namespace Frames

variable {α K : Type*} (mark : α) (key : K → List α)

def frame (e : K × List α) : List α := key e.1 ++ mark :: (e.2 ++ [mark])

def stream (es : List (K × List α)) : List α := es.flatMap (frame mark key)

variable {mark key} {k q : K} {c u v : List α} {es es' : List (K × List α)}

@[simp] theorem stream_nil : stream mark key [] = [] := rfl

theorem stream_cons (e : K × List α) (es : List (K × List α)) :
    stream mark key (e :: es) = key e.1 ++ mark :: (e.2 ++ mark :: stream mark key es) := by
  simp [stream, frame]

theorem stream_eq_nil (h : stream mark key es = []) : es = [] := by
  cases es with
  | nil => rfl
  | cons e es =>
    rw [stream_cons] at h
    exact absurd h (List.append_ne_nil_of_right_ne_nil _ (List.cons_ne_nil _ _))

/-- What comes before the first mark is determined. -/
theorem before_mark {a b x y : List α} (ha : mark ∉ a) (hb : mark ∉ b)
    (h : a ++ mark :: x = b ++ mark :: y) : a = b ∧ x = y := by
  rcases List.append_eq_append_iff.mp h with ⟨t, hbt, hxt⟩ | ⟨t, hat, hyt⟩
  · cases t with
    | nil => exact ⟨by simpa using hbt.symm, by simpa using hxt⟩
    | cons d t =>
      have hd : mark = d := (List.cons.inj hxt).1
      exact absurd (hbt ▸ List.mem_append_right a (hd ▸ List.mem_cons_self)) hb
  · cases t with
    | nil => exact ⟨by simpa using hat, by simpa using hyt.symm⟩
    | cons d t =>
      have hd : mark = d := (List.cons.inj hyt).1
      exact absurd (hat ▸ List.mem_append_right b (hd ▸ List.mem_cons_self)) ha

section Keys

variable (hkey : Function.Injective key) (hmark : ∀ k, mark ∉ key k)

include hkey hmark

/-- Two streams that are equal start with the same key. -/
theorem stream_cons_eq {e e' : K × List α}
    (h : stream mark key (e :: es) = stream mark key (e' :: es')) :
    e.1 = e'.1 ∧ e.2 ++ mark :: stream mark key es = e'.2 ++ mark :: stream mark key es' := by
  rw [stream_cons, stream_cons] at h
  obtain ⟨hfirst, hrest⟩ := before_mark (hmark e.1) (hmark e'.1) h
  exact ⟨hkey hfirst, hrest⟩

/-- Contents without the mark can be told apart. -/
theorem stream_injective (hes : ∀ e ∈ es, mark ∉ e.2) (hes' : ∀ e ∈ es', mark ∉ e.2)
    (h : stream mark key es = stream mark key es') : es = es' := by
  induction es generalizing es' with
  | nil => exact (stream_eq_nil h.symm).symm
  | cons e es ih =>
    cases es' with
    | nil => exact absurd (stream_eq_nil h) (List.cons_ne_nil _ _)
    | cons e' es' =>
      obtain ⟨hk, hafter⟩ := stream_cons_eq hkey hmark h
      obtain ⟨hc, hrest⟩ := before_mark (hes e List.mem_cons_self)
        (hes' e' List.mem_cons_self) hafter
      have htail := ih (fun e he => hes e (List.mem_cons_of_mem _ he))
        (fun e he => hes' e (List.mem_cons_of_mem _ he)) hrest
      rw [Prod.ext hk hc, htail]

/-- A stream of one entry is that of no other one, but it may be one of several whose first
contents the entry holds together. -/
theorem stream_single (h : stream mark key [(k, c)] = stream mark key es) :
    es = [(k, c)] ∨ ∃ u q v rest, es = (k, u) :: (q, v) :: rest ∧
      ∃ w, c = u ++ mark :: (key q ++ mark :: w) := by
  cases es with
  | nil => exact absurd (stream_eq_nil h) (List.cons_ne_nil _ _)
  | cons e es =>
    obtain ⟨rfl, hafter⟩ := stream_cons_eq hkey hmark h
    rw [stream_nil] at hafter
    cases es with
    | nil =>
      rw [stream_nil] at hafter
      have hc : c = e.2 := List.append_cancel_right hafter
      exact .inl (by rw [hc])
    | cons e' es =>
      refine .inr ⟨e.2, e'.1, e'.2, es, rfl, ?_⟩
      -- the last mark of the longer side closes the entry
      rw [stream_cons] at hafter
      rcases List.eq_nil_or_concat (stream mark key es) with hnil | ⟨front, last, hlast⟩
      · rw [hnil] at hafter
        have hc : c ++ [mark] = e.2 ++ mark :: (key e'.1 ++ mark :: e'.2) ++ [mark] := by
          simpa using hafter
        exact ⟨e'.2, List.append_cancel_right hc⟩
      · rw [hlast, List.concat_eq_append] at hafter
        have hends := congrArg List.getLast? hafter
        simp only [List.getLast?_append, List.getLast?_cons] at hends
        simp at hends
        have hc : c ++ [mark] =
            e.2 ++ mark :: (key e'.1 ++ mark :: (e'.2 ++ mark :: front)) ++ [mark] := by
          simpa [← hends] using hafter
        exact ⟨e'.2 ++ mark :: front, List.append_cancel_right hc⟩

end Keys

section Fewer

theorem length_stream_le (h : es.Sublist es') :
    (stream mark key es).length ≤ (stream mark key es').length := by
  induction h with
  | slnil => exact Nat.le_refl _
  | cons e _ ih =>
    rw [stream_cons]
    simp only [List.length_append, List.length_cons]
    omega
  | cons_cons e _ ih =>
    rw [stream_cons, stream_cons]
    simp only [List.length_append, List.length_cons]
    omega

/-- A stream is longer than that of fewer of its entries. -/
theorem eq_of_stream_eq (h : es.Sublist es') (heq : stream mark key es = stream mark key es') :
    es = es' := by
  induction h with
  | slnil => rfl
  | cons e hsub _ =>
    have hlength := congrArg List.length heq
    have hle := @length_stream_le _ _ mark key _ _ hsub
    rw [stream_cons] at hlength
    simp only [List.length_append, List.length_cons] at hlength
    omega
  | cons_cons e _ ih =>
    rw [stream_cons, stream_cons, List.append_cancel_left_eq, List.cons.injEq,
      List.append_cancel_left_eq, List.cons.injEq] at heq
    rw [ih heq.2.2]

end Fewer

/-- A content that holds the frame of another one. -/
theorem stream_merge : stream mark key ((k, u ++ mark :: (key q ++ mark :: v)) :: es) =
    stream mark key ((k, u) :: (q, v) :: es) := by
  simp [stream_cons]

end Frames
