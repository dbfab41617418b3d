import ZeroOS.Lib.Wire

/-!
# The IORT

The table is a sequence of nodes. Each SMMUv3 node gives an entry of the result, and the ID mappings of the root
complexes say which requester IDs an entry serves. The code finds the entry of a node by the number of SMMUv3 nodes
before it. This is the right one if each of them has an entry (`AllListed`); a node that is too short or has no base
address has none, and after it the mappings go to a later entry.
-/

namespace ZeroOS.Acpi

open List Wire

/-- The number of `width` bytes at an offset: `le16`, `le32` and `le64`. -/
def leAt (width : Nat) (bytes : Bytes) (off : Nat) : Option Nat :=
  if off + width ≤ bytes.length then some (ofLe ((bytes.drop off).take width)) else none

structure SmmuV3Info where
  base : Nat
  eventIrq : Nat
  priIrq : Nat
  gerrIrq : Nat
  syncIrq : Nat
  ridStart : Nat
  ridCount : Nat
  deriving DecidableEq, Repr

structure Node where
  off : Nat
  ty : Nat
  len : Nat
  deriving DecidableEq, Repr

/-- The entry of a node, if it gets one. -/
def smmuOf (bytes : Bytes) (node : Node) : Option SmmuV3Info :=
  if node.ty ≠ 4 ∨ node.len < 68 then none
  else
    let base := (leAt 8 bytes (node.off + 16)).getD 0
    if base = 0 then none
    else some {
      base := base
      eventIrq := (leAt 4 bytes (node.off + 44)).getD 0
      priIrq := (leAt 4 bytes (node.off + 48)).getD 0
      gerrIrq := (leAt 4 bytes (node.off + 52)).getD 0
      syncIrq := (leAt 4 bytes (node.off + 56)).getD 0
      ridStart := 0
      ridCount := 0 }

structure IdMap where
  input : Nat
  countMinus1 : Nat
  outputRef : Nat
  deriving DecidableEq, Repr

/-- The mappings that the inner loop of a root complex reads before it breaks, from the `i`-th on. -/
def mapLoop (bytes : Bytes) (node : Node) (start : Nat) : Nat → Nat → List IdMap
  | 0, _ => []
  | maps + 1, i =>
    let m := start + i * 20
    if node.off + node.len < m + 20 ∨ bytes.length < m + 20 then []
    else ⟨(leAt 4 bytes m).getD 0, (leAt 4 bytes (m + 4)).getD 0, (leAt 4 bytes (m + 12)).getD (2 ^ 32 - 1)⟩ ::
      mapLoop bytes node start maps (i + 1)

def idMaps (bytes : Bytes) (node : Node) : List IdMap :=
  if node.ty ≠ 2 ∨ node.len < 36 then []
  else mapLoop bytes node (node.off + (leAt 4 bytes (node.off + 12)).getD 0) ((leAt 4 bytes (node.off + 8)).getD 0) 0

/-- The range of a mapping for an entry that has none yet. -/
def SmmuV3Info.assign (map : IdMap) (smmu : SmmuV3Info) : SmmuV3Info :=
  if smmu.ridCount = 0 then
    { smmu with ridStart := map.input, ridCount := min (map.countMinus1 + 1) (2 ^ 32 - 1) }
  else smmu

/-- The body of the inner loop: the first SMMUv3 node at the offset, and the entry with the number that is left of
its index without the other nodes before it. -/
def route (nodes : List Node) (out : List SmmuV3Info) (map : IdMap) : List SmmuV3Info :=
  match nodes.findIdx? fun n => n.off = map.outputRef ∧ n.ty = 4 with
  | some idx => out.modify (idx - (nodes.take idx).countP (·.ty ≠ 4)) (SmmuV3Info.assign map)
  | none => out

/-- The nodes the entries are built from, in the order of the entries. -/
def origins (bytes : Bytes) (nodes : List Node) : List Node := nodes.filter fun n => (smmuOf bytes n).isSome

/-- An entry with a range has the base address of the node it is built from, and its range is that of a mapping of a
root complex that refers to this node. -/
def Routed (bytes : Bytes) (nodes : List Node) (out : List SmmuV3Info) : Prop :=
  ∀ (j : Nat) (s : SmmuV3Info), out[j]? = some s → ∃ n, (origins bytes nodes)[j]? = some n ∧
    (smmuOf bytes n).map SmmuV3Info.base = some s.base ∧
    (0 < s.ridCount → ∃ r ∈ nodes, r.ty = 2 ∧ ∃ map ∈ idMaps bytes r, map.outputRef = n.off ∧
      s.ridStart = map.input ∧ s.ridCount = min (map.countMinus1 + 1) (2 ^ 32 - 1))

/-- Every SMMUv3 node has an entry. -/
def AllListed (bytes : Bytes) (nodes : List Node) : Prop := ∀ n ∈ nodes, n.ty = 4 → (smmuOf bytes n).isSome

/-! ## The nodes -/

lemma ty_of_smmuOf (h : (smmuOf bytes n).isSome) : n.ty = 4 := by
  unfold smmuOf at h
  by_contra hne
  simp [hne] at h

lemma getElem?_filter_countP {α : Type} {p : α → Bool} {l : List α} {a : α} {i : Nat} (h : l[i]? = some a) (hp : p a) :
    (l.filter p)[(l.take i).countP p]? = some a := by
  obtain ⟨hi, rfl⟩ := List.getElem?_eq_some_iff.mp h
  have hl : l = l.take i ++ l[i] :: l.drop (i + 1) := by simp
  rw [countP_eq_length_filter]
  conv => enter [1, 1]; rw [hl, filter_append, filter_cons_of_pos hp]
  simp

lemma origin_of_findIdx? (ha : AllListed bytes nodes) (h : nodes.findIdx? (fun n => n.off = ref ∧ n.ty = 4) = some idx) :
    ∃ n, (origins bytes nodes)[idx - (nodes.take idx).countP (·.ty ≠ 4)]? = some n ∧ n.off = ref := by
  obtain ⟨hi, hp, -⟩ := findIdx?_eq_some_iff_getElem.mp h
  obtain ⟨hf, hy⟩ := of_decide_eq_true hp
  -- an origin is a node of type 4
  have ho : origins bytes nodes = nodes.filter (·.ty = 4) := by
    refine filter_congr fun n hn => Bool.eq_iff_iff.mpr ⟨fun hs => ?_, fun ht => ha n hn (of_decide_eq_true ht)⟩
    exact decide_eq_true (ty_of_smmuOf hs)
  have hc : idx - (nodes.take idx).countP (·.ty ≠ 4) = (nodes.take idx).countP (·.ty = 4) := by
    have := length_eq_countP_add_countP (p := fun n : Node => n.ty = 4) (l := nodes.take idx)
    simp only [length_take, decide_eq_true_eq] at this
    simp only [ne_eq]
    omega
  rw [ho, hc]
  exact ⟨nodes[idx], getElem?_filter_countP (getElem?_eq_getElem hi) (decide_eq_true hy), hf⟩

/-! ## The entries -/

lemma Routed.route {map : IdMap} (ha : AllListed bytes nodes) (h : Routed bytes nodes out) (hr : r ∈ nodes)
    (hm : map ∈ idMaps bytes r) : Routed bytes nodes (Acpi.route nodes out map) := by
  have ht : r.ty = 2 := by
    unfold idMaps at hm
    by_contra hne
    simp [hne] at hm
  unfold Acpi.route
  split
  next idx hf =>
    intro j s hs
    rw [getElem?_modify] at hs
    obtain ⟨s', hs', rfl⟩ := Option.map_eq_some_iff.mp hs
    obtain ⟨n, hn, hb, hc⟩ := h j s' hs'
    split
    next hj =>
      obtain ⟨n', hn', ho⟩ := origin_of_findIdx? ha hf
      rw [hj, hn] at hn'
      cases hn'
      unfold SmmuV3Info.assign
      split
      · exact ⟨n, hn, hb, fun _ => ⟨r, hr, ht, map, hm, ho.symm, rfl, rfl⟩⟩
      · exact ⟨n, hn, hb, hc⟩
    · exact ⟨n, hn, hb, hc⟩
  · exact h

end ZeroOS.Acpi
