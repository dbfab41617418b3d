import ZeroOS.Lib.Joined
import ZeroOS.Fs.Moves

/-!
# Names

The service only hands on paths that `canonical_path` has put together: a slash, and names without a slash
with a slash between them. A path is then as good as the list of its names (`key`): its parent is the list
without the last name, the paths below it are the lists that start with it, and a rename puts another list
in front.
-/

namespace ZeroOS.Fs

open Joined List Volume

def maxPath : Nat := 112

/-- The loop of `canonical_path`. -/
def pushParts (out : Path) (first : Bool) : List Path → Option Path
  | [] => some out
  | part :: parts =>
    if part = [] ∨ part = ['.'] ∨ part = ['.', '.'] then none
    else
      let out := (if first then out else out ++ ['/']) ++ part
      if maxPath < (utf8 out).length then none else pushParts out false parts

def canonicalPath (raw : Path) : Option Path :=
  if raw = [] ∨ ['/', '/'] <+: raw then none
  else if raw = ['/'] then some ['/']
  else
    let body := trimEnd (raw.dropWhile (· == '/'))
    if body = [] then some ['/'] else pushParts ['/'] true (body.splitOn '/')

def parentPath (path : Path) : Path :=
  -- up to the last slash, which `rfind` finds
  let upTo := (trimEnd path).rdropWhile (· != '/')
  if upTo = [] ∨ upTo = ['/'] then ['/'] else upTo.dropLast

/-- The path with these names. -/
def key (ps : List Path) : Path := if ps = [] then ['/'] else join '/' ps

section

@[simp] lemma key_nil : key [] = ['/'] := rfl

lemma key_of_ne (h : ps ≠ []) : key ps = join '/' ps := if_neg h

lemma length_join (h : Parts '/' ps) (hne : ps ≠ []) : 2 ≤ (join '/' ps).length := by
  obtain ⟨p, ps, rfl⟩ := exists_cons_of_ne_nil hne
  have hp := length_pos_of_ne_nil (h p mem_cons_self).1
  simp only [join_cons, length_cons, length_append]
  omega

lemma key_inj (hs : Parts '/' ps) (hqs : Parts '/' qs) (h : key ps = key qs) : ps = qs := by
  unfold key at h
  split at h <;> split at h
  next hp hq => rw [hp, hq]
  next hp hq =>
    have hl := length_join hqs hq
    rw [← h] at hl
    simp at hl
  next hp hq =>
    have hl := length_join hs hp
    rw [h] at hl
    simp at hl
  · exact join_inj hs hqs h

lemma normalPath_key (h : Parts '/' ps) : NormalPath (key ps) := by
  unfold key
  split
  · exact ⟨rfl, .inl rfl⟩
  next hne =>
    obtain ⟨p, ps, rfl⟩ := exists_cons_of_ne_nil hne
    exact ⟨rfl, .inr (getLast?_join h)⟩

lemma trimEnd_key (h : Parts '/' ps) : trimEnd (key ps) = join '/' ps := by
  unfold key
  split
  next hn =>
    rw [hn]
    rfl
  · exact trimEnd_eq_self (getLast?_join h)

lemma parentPath_key (h : Parts '/' ps) : parentPath (key ps) = key ps.dropLast := by
  unfold parentPath
  rw [trimEnd_key h]
  cases hl : ps.getLast? with
  | none =>
    rw [getLast?_eq_none_iff.mp hl]
    rfl
  | some p =>
    obtain ⟨qs, rfl⟩ := getLast?_eq_some_iff.mp hl
    have hp := (h p (by simp)).2
    have hu : (join '/' (qs ++ [p])).rdropWhile (· != '/') = join '/' qs ++ ['/'] := by
      have hr : ∀ c ∈ p, (c != '/') = true := by
        intro c hc
        simp only [bne_iff_ne]
        rintro rfl
        exact hp hc
      have hs : join '/' (qs ++ [p]) = (join '/' qs ++ ['/']) ++ p := by simp
      rw [hs, List.rdropWhile, reverse_append, dropWhile_append_of_pos]
      · simp
      · intro c hc
        exact hr c (mem_reverse.mp hc)
    rw [hu, dropLast_concat]
    dsimp only
    rw [dropLast_concat]
    unfold key
    by_cases hq : qs = []
    · simp [hq]
    · rw [if_neg hq, if_neg]
      rintro (hn | hn)
      · simp at hn
      · have he := length_join (parts_append.mp h).1 hq
        have ho := congrArg List.length hn
        simp only [length_append, length_cons, length_nil] at ho
        omega

end

lemma pushParts_cons (h : pushParts out first (p :: parts) = some path) :
    p ≠ [] ∧ pushParts ((if first then out else out ++ ['/']) ++ p) false parts = some path := by
  unfold pushParts at h
  split at h
  · cases h
  next hp =>
    dsimp only at h
    by_cases hl : maxPath < (utf8 ((if first then out else out ++ ['/']) ++ p)).length
    · rw [if_pos hl] at h
      cases h
    · rw [if_neg hl] at h
      exact ⟨fun hn => hp (.inl hn), h⟩

lemma pushParts_eq (hpr : ∀ p ∈ parts, '/' ∉ p)
    (h : pushParts out false parts = some path) : Parts '/' parts ∧ path = out ++ join '/' parts := by
  induction parts generalizing out with
  | nil => exact ⟨parts_nil, by simpa [pushParts] using h.symm⟩
  | cons p parts ih =>
    obtain ⟨hp, h⟩ := pushParts_cons h
    obtain ⟨hr, rfl⟩ := ih (fun q hq => hpr q (mem_cons_of_mem _ hq)) h
    exact ⟨parts_cons.mpr ⟨⟨hp, hpr p mem_cons_self⟩, hr⟩, by simp⟩

lemma canonicalPath_eq (h : canonicalPath raw = some path) : ∃ ps, Parts '/' ps ∧ path = key ps := by
  have hr : some ['/'] = some path → ∃ ps, Parts '/' ps ∧ path = key ps :=
    fun heq => ⟨[], parts_nil, (Option.some.inj heq).symm⟩
  unfold canonicalPath at h
  split at h
  · cases h
  split at h
  · exact hr h
  dsimp only at h
  split at h
  · exact hr h
  have hf : ∀ p ∈ (trimEnd (raw.dropWhile (· == '/'))).splitOn '/', '/' ∉ p :=
    fun p hp => notMem_of_mem_splitOn hp
  obtain ⟨p, parts, hs⟩ := exists_cons_of_ne_nil
    (splitOn_ne_nil '/' (trimEnd (raw.dropWhile (· == '/'))))
  rw [hs] at h hf
  obtain ⟨hp, h⟩ := pushParts_cons h
  obtain ⟨hrs, rfl⟩ := pushParts_eq (fun q hq => hf q (mem_cons_of_mem _ hq)) h
  refine ⟨p :: parts, parts_cons.mpr ⟨⟨hp, hf p mem_cons_self⟩, hrs⟩, ?_⟩
  rw [key_of_ne (cons_ne_nil _ _)]
  simp

example : canonicalPath "a/b.c/".toList = some "/a/b.c".toList ∧ canonicalPath "/a/../b".toList = none := by
  decide +kernel

end ZeroOS.Fs
