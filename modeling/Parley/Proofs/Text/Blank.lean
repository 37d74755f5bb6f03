import Parley.Text.Blank
import Parley.Text.Utf8

/-!
# Taking text apart again

Text that was put together from pieces comes apart into the same pieces: at the first separator (`cutAt_append`), into
words (`words_append`), into lines (`contentLines_join`) and at a number of octets (`splitBytes_append`). The pieces may
not hold what separates them.
-/

namespace Parley.Text

variable {a b cs : List Char}

/-- Text that has no blank at either end. -/
def IsTrim (cs : List Char) : Prop :=
  (∀ c, cs.head? = some c → isBlank c = false) ∧ ∀ c, cs.getLast? = some c → isBlank c = false

theorem dropWhile_isBlank (h : ∀ c, cs.head? = some c → isBlank c = false) : cs.dropWhile isBlank = cs := by
  cases cs with
  | nil => rfl
  | cons c cs => rw [List.dropWhile_cons_of_neg (by simp [h c rfl])]

theorem trim_eq_self (h : IsTrim cs) : trim cs = cs := by
  have hr : cs.reverse.dropWhile isBlank = cs.reverse := by
    refine dropWhile_isBlank fun c hc => h.2 c ?_
    rwa [List.head?_reverse] at hc
  rw [trim, dropWhile_isBlank h.1, hr, List.reverse_reverse]

/-- Text without blanks. -/
theorem isTrim_of_forall (h : ∀ c ∈ cs, isBlank c = false) : IsTrim cs :=
  ⟨fun c hc => h c (List.mem_of_head? hc), fun c hc => h c (List.mem_of_getLast? hc)⟩

/-- Text that begins and ends with pieces without blanks. -/
theorem isTrim_append (ha : ∀ c ∈ a, isBlank c = false) (hne : a ≠ []) (hb : ∀ c ∈ b, isBlank c = false) (hne' : b ≠ [])
    (mid : List Char) : IsTrim (a ++ mid ++ b) := by
  constructor
  · intro c hc
    obtain ⟨x, xs, rfl⟩ := List.exists_cons_of_ne_nil hne
    obtain rfl : x = c := by simpa using hc
    exact ha x List.mem_cons_self
  · intro c hc
    rw [List.getLast?_append, List.getLast?_eq_some_getLast hne', Option.some_or, Option.some.injEq] at hc
    exact hb c (hc ▸ List.getLast_mem hne')

/-! ## Separators -/

theorem cutAt_append {sep : Char} (h : sep ∉ a) : cutAt sep (a ++ sep :: b) = some (a, b) := by
  have hne : ∀ c ∈ a, (c != sep) = true := by
    intro c hc
    simpa using fun e : c = sep => h (e ▸ hc)
  simp [cutAt, List.dropWhile_append_of_pos hne, List.takeWhile_append_of_pos hne]

theorem not_mem_of_cutAt {sep : Char} (h : cutAt sep cs = some (a, b)) : sep ∉ a := by
  unfold cutAt at h
  split at h
  · contradiction
  · cases h
    intro hmem
    simpa using List.all_eq_true.1 List.all_takeWhile sep hmem

section Pieces

variable {p : Char → Bool}

theorem splitAll_of_forall (h : ∀ c ∈ cs, p c = false) : splitAll p cs = [cs] := by
  induction cs with
  | nil => rfl
  | cons c cs ih =>
    rw [List.forall_mem_cons] at h
    have hcons : splitAll p (c :: cs) = if p c then [] :: splitAll p cs else consHead c (splitAll p cs) := rfl
    simp [hcons, h.1, ih h.2, consHead]

theorem splitAll_append {sep : Char} (h : ∀ c ∈ a, p c = false) (hs : p sep = true) :
    splitAll p (a ++ sep :: b) = a :: splitAll p b := by
  induction a with
  | nil => simp [splitAll, hs]
  | cons c cs ih =>
    rw [List.forall_mem_cons] at h
    have hcons : splitAll p (c :: (cs ++ sep :: b)) =
      if p c then [] :: splitAll p (cs ++ sep :: b) else consHead c (splitAll p (cs ++ sep :: b)) := rfl
    simp [hcons, h.1, ih h.2, consHead]

/-- No piece holds a separator. -/
theorem eq_false_of_mem_splitAll {piece : List Char} (h : piece ∈ splitAll p cs) {c : Char} (hc : c ∈ piece) :
    p c = false := by
  induction cs generalizing piece with
  | nil =>
    rw [List.mem_singleton.1 h] at hc
    cases hc
  | cons d cs ih =>
    have hcons : splitAll p (d :: cs) = if p d then [] :: splitAll p cs else consHead d (splitAll p cs) := rfl
    rw [hcons] at h
    split at h
    · rcases List.mem_cons.1 h with rfl | h
      · cases hc
      · exact ih h hc
    · rename_i hd
      cases hs : splitAll p cs with
      | nil =>
        rw [hs] at h
        rw [List.mem_singleton.1 h] at hc
        rw [List.mem_singleton.1 hc, Bool.eq_false_iff]
        exact hd
      | cons q qs =>
        rw [hs] at h ih
        rcases List.mem_cons.1 h with rfl | h
        · rcases List.mem_cons.1 hc with rfl | hc
          · exact Bool.eq_false_iff.2 hd
          · exact ih List.mem_cons_self hc
        · exact ih (List.mem_cons_of_mem q h) hc

end Pieces

/-! ## Words and lines -/

theorem words_of_forall (h : ∀ c ∈ cs, isBlank c = false) (hne : cs ≠ []) : words cs = [cs] := by
  simp [words, splitAll_of_forall h, hne]

theorem words_append (h : ∀ c ∈ a, isBlank c = false) (hne : a ≠ []) : words (a ++ ' ' :: b) = a :: words b := by
  have hs : isBlank ' ' = true := by decide
  simp [words, splitAll_append h hs, hne]

theorem mem_words {w : List Char} (h : w ∈ words cs) : w ≠ [] ∧ ∀ c ∈ w, isBlank c = false := by
  obtain ⟨hpiece, hne⟩ := List.mem_filter.1 h
  exact ⟨by simpa using hne, fun c hc => eq_false_of_mem_splitAll hpiece hc⟩

theorem isTrim_trim (cs : List Char) : IsTrim (trim cs) := by
  have hdrop (ds : List Char) (c : Char) (hc : (ds.dropWhile isBlank).head? = some c) : isBlank c = false := by
    have h := List.head?_dropWhile_not isBlank ds
    rwa [hc] at h
  constructor
  · intro c hc
    have hsuffix := List.dropWhile_suffix (l := (cs.dropWhile isBlank).reverse) isBlank
    obtain ⟨rest, hrest⟩ := List.reverse_prefix.2 hsuffix
    rw [List.reverse_reverse] at hrest
    refine hdrop cs c ?_
    rw [← hrest, List.head?_append]
    exact congrArg (fun o => Option.or o _) hc
  · intro c hc
    rw [trim, List.getLast?_reverse] at hc
    exact hdrop _ c hc

/-- Trimming text that begins with a piece without blanks takes away from its end alone. -/
theorem exists_trim_append (ha : ∀ c ∈ a, isBlank c = false) (hne : a ≠ []) (b : List Char) :
    ∃ rest, rest <+: b ∧ trim (a ++ b) = a ++ rest := by
  have hrev : a.reverse.dropWhile isBlank = a.reverse :=
    dropWhile_isBlank fun c hc => ha c (List.mem_reverse.1 (List.mem_of_head? hc))
  have hhead : (a ++ b).dropWhile isBlank = a ++ b := by
    obtain ⟨x, xs, rfl⟩ := List.exists_cons_of_ne_nil hne
    exact List.dropWhile_cons_of_neg (by simp [ha x List.mem_cons_self])
  refine ⟨(b.reverse.dropWhile isBlank).reverse, ?_, ?_⟩
  · have hsuffix := List.dropWhile_suffix (l := b.reverse) isBlank
    rwa [← List.reverse_prefix, List.reverse_reverse] at hsuffix
  · rw [trim, hhead, List.reverse_append, List.dropWhile_append]
    split
    · rename_i hnil
      rw [List.isEmpty_iff.1 hnil, hrev, List.reverse_reverse, List.reverse_nil, List.append_nil]
    · rw [List.reverse_append, List.reverse_reverse]

theorem mem_contentLines {l : List Char} (h : l ∈ contentLines cs) : l ≠ [] ∧ IsTrim l := by
  obtain ⟨hline, hne⟩ := List.mem_filter.1 h
  obtain ⟨piece, -, rfl⟩ := List.mem_map.1 hline
  exact ⟨by simpa using hne, isTrim_trim piece⟩

/-- A line that can be joined with others and found again. -/
structure IsLine (l : List Char) : Prop where
  noBreak : '\n' ∉ l
  isTrim : IsTrim l
  ne_nil : l ≠ []

/-- Empty lines are not found again. -/
theorem contentLines_join_eq_filter {ls : List (List Char)} (h : ∀ l ∈ ls, '\n' ∉ l ∧ IsTrim l) :
    contentLines (join ['\n'] ls) = ls.filter fun l => !l.isEmpty := by
  have hbreak : ∀ l : List Char, '\n' ∉ l → ∀ c ∈ l, (c == '\n') = false := by
    intro l hl c hc
    simpa using fun e : c = '\n' => hl (e ▸ hc)
  induction ls with
  | nil => rfl
  | cons l ls ih =>
    rw [List.forall_mem_cons] at h
    obtain ⟨⟨hl, ht⟩, hls⟩ := h
    cases ls with
    | nil => simp only [join, contentLines, splitAll_of_forall (hbreak l hl), List.map_cons, List.map_nil, trim_eq_self ht]
    | cons k ks =>
      have hj : join ['\n'] (l :: k :: ks) = l ++ '\n' :: join ['\n'] (k :: ks) := by simp [join]
      have hs : splitAll (· == '\n') (l ++ '\n' :: join ['\n'] (k :: ks)) =
          l :: splitAll (· == '\n') (join ['\n'] (k :: ks)) := splitAll_append (hbreak l hl) rfl
      rw [contentLines] at ih ⊢
      rw [hj, hs, List.map_cons, trim_eq_self ht, List.filter_cons, List.filter_cons, ih hls]

theorem contentLines_join {ls : List (List Char)} (h : ∀ l ∈ ls, IsLine l) : contentLines (join ['\n'] ls) = ls := by
  rw [contentLines_join_eq_filter fun l hl => ⟨(h l hl).noBreak, (h l hl).isTrim⟩, List.filter_eq_self]
  exact fun l hl => by simp [(h l hl).ne_nil]

/-- What is written piece by piece is read back piece by piece. -/
theorem mapM_map_of_forall {α β : Type} {m : Type → Type} [Monad m] [LawfulMonad m] {f : α → β} {g : β → m α}
    {xs : List α} (h : ∀ x ∈ xs, g (f x) = pure x) : (xs.map f).mapM g = pure xs := by
  induction xs with
  | nil => rw [List.map_nil, List.mapM_nil]
  | cons x xs ih =>
    rw [List.forall_mem_cons] at h
    rw [List.map_cons, List.mapM_cons, h.1, ih h.2]
    simp

/-- A reader that goes on after another one has read what it goes on with. -/
theorem exists_of_bind_eq_ok {α β ε : Type} {x : Except ε α} {f : α → Except ε β} {y : β} (h : x >>= f = .ok y) :
    ∃ a, x = .ok a ∧ f a = .ok y := by
  cases x with
  | error e => cases h
  | ok a => exact ⟨a, rfl, h⟩

/-- What is read piece by piece comes of the pieces. -/
theorem exists_of_mem_mapM {α β ε : Type} {g : α → Except ε β} {xs : List α} {ys : List β} (h : xs.mapM g = .ok ys)
    {y : β} (hy : y ∈ ys) : ∃ x ∈ xs, g x = .ok y := by
  induction xs generalizing ys with
  | nil =>
    cases h
    cases hy
  | cons x xs ih =>
    rw [List.mapM_cons] at h
    obtain ⟨z, hz, h⟩ := exists_of_bind_eq_ok h
    obtain ⟨zs, hzs, h⟩ := exists_of_bind_eq_ok h
    cases h
    rcases List.mem_cons.1 hy with rfl | hy
    · exact ⟨x, List.mem_cons_self, hz⟩
    · obtain ⟨x', hx', hg⟩ := ih hzs hy
      exact ⟨x', List.mem_cons_of_mem x hx', hg⟩

/-! ## Octets -/

/-- The octets of a text are split off at its end. -/
theorem splitBytes_append (a b : List Char) : splitBytes (Utf8.encode a).length (a ++ b) = some (a, b) := by
  induction a with
  | nil => simp [splitBytes, Utf8.encode]
  | cons c cs ih =>
    have hpos := c.utf8Size_pos
    have hlen : (Utf8.encode (c :: cs)).length = c.utf8Size + (Utf8.encode cs).length := by simp [Utf8.encode]
    obtain ⟨n, hn⟩ : ∃ n, c.utf8Size + (Utf8.encode cs).length = n + 1 :=
      ⟨c.utf8Size + (Utf8.encode cs).length - 1, by omega⟩
    have hrest : n + 1 - c.utf8Size = (Utf8.encode cs).length := by omega
    rw [hlen, hn, List.cons_append, splitBytes, if_pos (by omega), hrest, ih]
    rfl

theorem append_of_splitBytes {n : Nat} (h : splitBytes n cs = some (a, b)) : a ++ b = cs := by
  fun_induction splitBytes n cs generalizing a with
  | case1 cs =>
    cases h
    rfl
  | case2 => cases h
  | case3 n c cs hfits ih =>
    obtain ⟨⟨a', b'⟩, hsplit, hab⟩ := Option.map_eq_some_iff.1 h
    cases hab
    rw [List.cons_append, ih hsplit]
  | case4 => cases h

end Parley.Text
