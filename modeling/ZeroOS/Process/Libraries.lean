import ZeroOS.Process.Image

/-!
# Loading the libraries of a program

`load_library_recursive` loads what a library needs, then the library. It looks for a library among
those that have been mapped, not among those that it has begun to load. A library that is needed by
one it needs is therefore begun again, and again.

The model counts how deep the calls are nested: a load that does not end within any depth does not end.
-/

namespace ZeroOS.Process

open List Loop Memory

inductive UserElfKind
  | exec
  | dyn
  deriving DecidableEq

/-- What the loader reads of a parsed image. The relocations are left to `relocate`. -/
structure UserElf where
  kind : UserElfKind
  segments : List UserElfSegment
  needed : List String

/-- A file in `/System/Lib`, and what `parse_user_elf` makes of it. -/
structure LibraryFile where
  bytes : List (BitVec 8)
  elf : Option UserElf

structure LoadedLibrary where
  name : String
  elf : UserElf
  bias : Nat

inductive ProcessError
  | invalidArgument
  | elfError
  | mapError (e : MapError)
  deriving DecidableEq

/-- How a load ends early: with an error, or because the calls are nested too deep. -/
inductive Stop
  | error (e : ProcessError)
  | depth
  deriving DecidableEq

structure Runtime where
  loader : Loader
  libs : List LoadedLibrary
  /-- The names `map_shared_library_segments` was called with. -/
  mapped : List String
  /-- The libraries that were being loaded, each time another one was begun. -/
  began : List (List String)

def Runtime.start (l : Loader) : Runtime := ⟨l, [], [], [[]]⟩

def userLibBase : Nat := 0x30000000

def userLibEnd : Nat := 0x3f000000

def userLibSlot : Nat := 0x800000

def maxLoadedLibraries : Nat := (userLibEnd - userLibBase) / userLibSlot

def UserElf.imageSpan (elf : UserElf) : Option Nat :=
  elf.segments.foldlM (fun stop s => if s.vaddr + s.memsz < usizeSize then some (max stop (s.vaddr + s.memsz)) else none) 0

def libraryBiasForIndex (index : Nat) (elf : UserElf) : Option Nat :=
  if maxLoadedLibraries ≤ index then none
  else
    elf.imageSpan.bind fun span =>
      let bias := userLibBase + index * userLibSlot
      if alignUp span = 0 ∨ userLibSlot < alignUp span ∨ userLibEnd < bias + alignUp span then none else some bias

/-- A name that is not that of a file in the directory. -/
def badName (name : String) : Bool := name.toList.isEmpty || name.toList.contains '/' || decide (['.', '.'] <:+: name.toList)

/-- The end of `load_library_recursive`. -/
def mapLibrary (short : Shortage) (name : String) (elf : UserElf) (bytes : List (BitVec 8)) (r : Runtime) :
    Except Stop Unit × Runtime :=
  if r.libs.any (·.name = name) then (.ok (), r)
  else
    match libraryBiasForIndex r.libs.length elf with
    | none => (.error (.error .invalidArgument), r)
    | some bias =>
      match mapSharedLibrarySegments short bytes name bias elf.segments r.loader with
      | (.error e, l) => (.error (.error (.mapError e)), { r with loader := l, mapped := name :: r.mapped })
      | (.ok (), l) =>
        (.ok (), { r with loader := l, mapped := name :: r.mapped, libs := r.libs ++ [⟨name, elf, bias⟩] })

section

variable (files : List (String × LibraryFile)) (short : Shortage)

/-- `stack` are the libraries that are being loaded, from the inside. -/
def loadLibraryRecursive : Nat → List String → String → Runtime → Except Stop Unit × Runtime
  | 0, _, _, r => (.error .depth, r)
  | depth + 1, stack, name, r =>
    if r.libs.any (·.name = name) then (.ok (), r)
    else if maxLoadedLibraries ≤ r.libs.length ∨ badName name then (.error (.error .invalidArgument), r)
    else
      match files.lookup name with
      | none => (.error (.error .invalidArgument), r)
      | some ⟨_, none⟩ => (.error (.error .elfError), r)
      | some ⟨bytes, some elf⟩ =>
        if elf.kind ≠ .dyn then (.error (.error .invalidArgument), r)
        else
          match tryEach (loadLibraryRecursive depth (name :: stack)) elf.needed
            { r with began := (name :: stack) :: r.began } with
          | (.ok (), r') => mapLibrary short name elf bytes r'
          | (.error e, r') => (.error e, r')

end

/-- What holds however a load ends. If it is too deep, `n` libraries at least were being loaded. -/
structure Fine (files : List (String × LibraryFile)) (n : Nat) (out : Except Stop Unit × Runtime) : Prop where
  nodup : out.2.mapped.Nodup
  mapped : out.1 = .ok () → ∀ name ∈ out.2.mapped, out.2.libs.any (·.name = name)
  began : ∀ k ∈ out.2.began, k ⊆ files.map Prod.fst
  deep : out.1 = .error .depth → ∃ k ∈ out.2.began, n ≤ k.length

lemma Fine.error (h : Fine files n (.ok (), r)) (e : ProcessError) : Fine files n (.error (.error e), r) :=
  ⟨h.nodup, nofun, h.began, nofun⟩

lemma Fine.mapLibrary (h : Fine files n (.ok (), r)) (short : Shortage) (name : String) (elf : UserElf)
    (bytes : List (BitVec 8)) : Fine files n (mapLibrary short name elf bytes r) ∧
      (Process.mapLibrary short name elf bytes r).2.began = r.began := by
  unfold Process.mapLibrary
  split
  · exact ⟨h, rfl⟩
  next hw =>
    have hn : (name :: r.mapped).Nodup := nodup_cons.mpr ⟨fun he => hw (h.mapped rfl name he), h.nodup⟩
    split
    · exact ⟨h.error _, rfl⟩
    · split
      · exact ⟨⟨hn, nofun, h.began, nofun⟩, rfl⟩
      · refine ⟨⟨hn, fun _ m hm => ?_, h.began, nofun⟩, rfl⟩
        rcases mem_cons.mp hm with rfl | hm
        · simp
        · simpa using .inl (by simpa using h.mapped rfl m hm)

/-- Every call, by induction on the depth that is left. -/
lemma Fine.load : ∀ {stack : List String} (name : String) {r : Runtime}, stack ∈ r.began →
    n ≤ stack.length + depth → Fine files n (.ok (), r) → Fine files n (loadLibraryRecursive files short depth stack name r) ∧
        r.began ⊆ (loadLibraryRecursive files short depth stack name r).2.began := by
  induction depth with
  | zero => exact fun _ _ ht hn h => ⟨⟨h.nodup, nofun, h.began, fun _ => ⟨_, ht, hn⟩⟩, Subset.refl _⟩
  | succ depth ih =>
    intro stack name r ht hn h
    unfold loadLibraryRecursive
    split_ifs
    · exact ⟨h, Subset.refl _⟩
    · exact ⟨h.error _, Subset.refl _⟩
    · split
      · exact ⟨h.error _, Subset.refl _⟩
      · exact ⟨h.error _, Subset.refl _⟩
      next bytes elf hfl =>
        split_ifs
        · exact ⟨h.error _, Subset.refl _⟩
        · -- The library is begun: it is on top of those that are being loaded.
          have hm : name ∈ files.map Prod.fst := by
            obtain ⟨l₁, l₂, rfl, -⟩ := lookup_eq_some_iff.mp hfl
            simp
          have hb : Fine files n (.ok (), { r with began := (name :: stack) :: r.began }) := by
            refine ⟨h.nodup, h.mapped, fun k hk => ?_, nofun⟩
            rcases mem_cons.mp hk with rfl | hk
            · exact cons_subset.mpr ⟨hm, h.began stack ht⟩
            · exact h.began k hk
          have hl := @tryEach_rule _ _ _ (loadLibraryRecursive files short depth (name :: stack)) elf.needed _
            (fun out => Fine files n out ∧ (name :: stack) :: r.began ⊆ out.2.began)
            (fun dep _ s hs => by
              obtain ⟨hf, hsub⟩ := ih dep (hs.2 mem_cons_self) (by simp; omega) hs.1
              exact ⟨hf, fun k hk => hsub (hs.2 hk)⟩) ⟨hb, Subset.refl _⟩
          have hsub := (cons_subset.mp hl.2).2
          split
          next r' heq =>
            rw [heq] at hl hsub
            obtain ⟨hf, hsm⟩ := hl.1.mapLibrary short name elf bytes
            exact ⟨hf, hsm ▸ hsub⟩
          next e r' heq =>
            rw [heq] at hl hsub
            exact ⟨hl.1, hsub⟩

end ZeroOS.Process
