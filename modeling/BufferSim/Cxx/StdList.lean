import Mathlib.Data.Finmap

/-!
# `std::list` with node identity

A `StdList` is a doubly linked list seen from outside: its nodes in order, each
with the address that an iterator to it holds.  Addresses are never reused, so
an iterator to an erased node denotes no node at all.  An operation that C++
leaves undefined (erasing through such an iterator, popping an empty list)
returns `none`.

`Linked` relates a list to a map from its values to iterators, the way an
`unordered_map` indexes a list.  It is preserved by removing a value from both
and by pushing a new value to the front of the list.
-/

namespace Cxx

variable {α : Type*}

/-- A node of a list and its address. -/
structure Node (α : Type*) where
  addr : ℕ
  val : α
  deriving DecidableEq, Repr

/-- An iterator holds the address of a node. -/
abbrev Iterator := ℕ

/-- The nodes of a list in order.  All addresses are distinct and below the
next address to be allocated. -/
structure StdList (α : Type*) where
  nodes : List (Node α)
  fresh : ℕ
  nodup_addr : (nodes.map Node.addr).Nodup
  addr_lt : ∀ n ∈ nodes, n.addr < fresh

namespace StdList

def empty : StdList α where
  nodes := []
  fresh := 0
  nodup_addr := List.nodup_nil
  addr_lt := by simp

/-- The values of a list in order. -/
def toList (l : StdList α) : List α :=
  l.nodes.map Node.val

/-- The list that keeps some of the nodes in their order. -/
def restrict (l : StdList α) (nodes : List (Node α))
    (h : nodes.Sublist l.nodes) : StdList α where
  nodes := nodes
  fresh := l.fresh
  nodup_addr := l.nodup_addr.sublist (h.map Node.addr)
  addr_lt n hn := l.addr_lt n (h.subset hn)

/-- `push_front`: allocate a node before all others. -/
def pushFront (l : StdList α) (a : α) : StdList α where
  nodes := ⟨l.fresh, a⟩ :: l.nodes
  fresh := l.fresh + 1
  nodup_addr := by
    rw [List.map_cons, List.nodup_cons]
    refine ⟨?_, l.nodup_addr⟩
    intro hmem
    obtain ⟨n, hn, haddr⟩ := List.mem_map.mp hmem
    exact absurd haddr (Nat.ne_of_lt (l.addr_lt n hn))
  addr_lt := by
    intro n hn
    rcases List.mem_cons.mp hn with rfl | hn
    · exact Nat.lt_succ_self _
    · exact Nat.lt_succ_of_lt (l.addr_lt n hn)

/-- `begin()`, for a list that is not empty. -/
def begin (l : StdList α) : Option Iterator :=
  l.nodes.head?.map Node.addr

/-- `erase(it)`: free the node that `it` points to. -/
def erase (l : StdList α) (it : Iterator) : Option (StdList α) :=
  if it ∈ l.nodes.map Node.addr then
    some (l.restrict (l.nodes.filter (fun n => n.addr ≠ it))
      List.filter_sublist)
  else none

def front (l : StdList α) : Option α :=
  l.toList.head?

def back (l : StdList α) : Option α :=
  l.toList.getLast?

def popFront (l : StdList α) : Option (StdList α) :=
  if l.nodes = [] then none
  else some (l.restrict l.nodes.tail (List.tail_sublist _))

def popBack (l : StdList α) : Option (StdList α) :=
  if l.nodes = [] then none
  else some (l.restrict l.nodes.dropLast (List.dropLast_sublist _))

@[simp] theorem toList_pushFront (l : StdList α) (a : α) :
    (l.pushFront a).toList = a :: l.toList := rfl

theorem mem_toList {l : StdList α} {a : α} :
    a ∈ l.toList ↔ ∃ it, ⟨it, a⟩ ∈ l.nodes := by
  rw [toList, List.mem_map]
  constructor
  · rintro ⟨⟨it, b⟩, hn, rfl⟩
    exact ⟨it, hn⟩
  · rintro ⟨it, hn⟩
    exact ⟨⟨it, a⟩, hn, rfl⟩

/-- Two nodes at one address are the same node. -/
theorem eq_of_addr_eq (l : StdList α) {m n : Node α} (hm : m ∈ l.nodes)
    (hn : n ∈ l.nodes) (haddr : m.addr = n.addr) : m = n :=
  List.inj_on_of_nodup_map l.nodup_addr hm hn haddr

/-- Two nodes with one value are the same node when values do not repeat. -/
theorem eq_of_val_eq {l : StdList α} (hl : l.toList.Nodup) {m n : Node α}
    (hm : m ∈ l.nodes) (hn : n ∈ l.nodes) (hval : m.val = n.val) : m = n :=
  List.inj_on_of_nodup_map hl hm hn hval

/-! ## Removing one value -/

variable [DecidableEq α]

/-- `l'` is `l` without the nodes of value `v`; no node moves. -/
def Removes (l : StdList α) (v : α) (l' : StdList α) : Prop :=
  l'.nodes = l.nodes.filter (fun n => n.val ≠ v)

theorem Removes.mem_nodes {l l' : StdList α} {v : α} (h : l.Removes v l')
    (n : Node α) : n ∈ l'.nodes ↔ n ∈ l.nodes ∧ n.val ≠ v := by
  rw [h, List.mem_filter, decide_eq_true_eq]

theorem Removes.toList_eq {l l' : StdList α} {v : α} (h : l.Removes v l')
    (hl : l.toList.Nodup) : l'.toList = l.toList.erase v := by
  rw [hl.erase_eq_filter, toList, h, toList, List.filter_map]
  congr 1
  apply List.filter_congr
  intro n _
  by_cases hn : n.val = v <;> simp [hn]

theorem removes_of_erase {l : StdList α} (hl : l.toList.Nodup) {it : Iterator}
    {v : α} (hn : ⟨it, v⟩ ∈ l.nodes) :
    ∃ l', l.erase it = some l' ∧ l.Removes v l' := by
  have hlive : it ∈ l.nodes.map Node.addr :=
    List.mem_map.mpr ⟨⟨it, v⟩, hn, rfl⟩
  refine ⟨_, if_pos hlive, ?_⟩
  apply List.filter_congr
  intro n hmem
  have hiff : n.addr = it ↔ n.val = v := by
    constructor
    · intro haddr
      exact congrArg Node.val (l.eq_of_addr_eq hmem hn haddr)
    · intro hval
      exact congrArg Node.addr (eq_of_val_eq hl hmem hn hval)
  simp [hiff]

theorem removes_of_popFront {l : StdList α} (hl : l.toList.Nodup) {v : α}
    (hv : l.toList.head? = some v) :
    ∃ l', l.popFront = some l' ∧ l.Removes v l' := by
  cases hnodes : l.nodes with
  | nil => simp [toList, hnodes] at hv
  | cons n rest =>
      refine ⟨_, if_neg (by simp [hnodes]), ?_⟩
      have hval : n.val = v := by simpa [toList, hnodes] using hv
      have hfresh : ∀ m ∈ rest, m.val ≠ v := by
        rw [toList, hnodes, List.map_cons, List.nodup_cons, hval] at hl
        intro m hm hmv
        exact hl.1 (List.mem_map.mpr ⟨m, hm, hmv⟩)
      show l.nodes.tail = l.nodes.filter (fun n => n.val ≠ v)
      rw [hnodes, List.tail_cons, List.filter_cons_of_neg (by simp [hval])]
      symm
      rw [List.filter_eq_self]
      intro m hm
      simpa using hfresh m hm

theorem removes_of_popBack {l : StdList α} (hl : l.toList.Nodup) {v : α}
    (hv : l.toList.getLast? = some v) :
    ∃ l', l.popBack = some l' ∧ l.Removes v l' := by
  rcases List.eq_nil_or_concat l.nodes with hnil | ⟨init, n, hnodes⟩
  · simp [toList, hnil] at hv
  · rw [List.concat_eq_append] at hnodes
    refine ⟨_, if_neg (by simp [hnodes]), ?_⟩
    have hval : n.val = v := by simpa [toList, hnodes] using hv
    have hfresh : ∀ m ∈ init, m.val ≠ v := by
      rw [toList, hnodes, List.map_append, List.nodup_append] at hl
      intro m hm hmv
      exact hl.2.2 m.val (List.mem_map_of_mem hm) n.val (by simp)
        (hmv.trans hval.symm)
    show l.nodes.dropLast = l.nodes.filter (fun n => n.val ≠ v)
    rw [hnodes, List.dropLast_concat, List.filter_append,
      List.filter_cons_of_neg (by simp [hval]), List.filter_nil,
      List.append_nil]
    symm
    rw [List.filter_eq_self]
    intro m hm
    simpa using hfresh m hm

end StdList

/-! ## A list indexed by a map of iterators -/

variable [DecidableEq α]

/-- An `unordered_map` from values to iterators. -/
abbrev IteratorMap (α : Type*) := Finmap (fun _ : α => Iterator)

/-- `size()` of an `unordered_map`. -/
def IteratorMap.size (m : IteratorMap α) : ℕ :=
  m.keys.card

/-- The list has no repeated value, and the map sends each value of the list to
its own node and nothing else anywhere. -/
structure Linked (l : StdList α) (m : IteratorMap α) : Prop where
  nodup : l.toList.Nodup
  lookup_iff : ∀ p it, m.lookup p = some it ↔ ⟨it, p⟩ ∈ l.nodes

namespace Linked

open StdList

variable {l l' : StdList α} {m : IteratorMap α}

theorem empty : Linked (StdList.empty : StdList α) (∅ : IteratorMap α) where
  nodup := List.nodup_nil
  lookup_iff := by simp [StdList.empty]

theorem mem_map_iff (h : Linked l m) (p : α) : p ∈ m ↔ p ∈ l.toList := by
  rw [Finmap.mem_iff, StdList.mem_toList]
  exact exists_congr (fun it => h.lookup_iff p it)

theorem keys_eq (h : Linked l m) : m.keys = l.toList.toFinset := by
  ext p
  rw [Finmap.mem_keys, h.mem_map_iff, List.mem_toFinset]

theorem size_eq (h : Linked l m) : IteratorMap.size m = l.toList.length := by
  rw [IteratorMap.size, h.keys_eq, List.toFinset_card_of_nodup h.nodup]

theorem lookup_eq_none_iff (h : Linked l m) (p : α) :
    m.lookup p = none ↔ p ∉ l.toList := by
  rw [Finmap.lookup_eq_none, h.mem_map_iff]

theorem exists_lookup (h : Linked l m) {p : α} (hp : p ∈ l.toList) :
    ∃ it, m.lookup p = some it ∧ ⟨it, p⟩ ∈ l.nodes := by
  obtain ⟨it, hit⟩ := StdList.mem_toList.mp hp
  exact ⟨it, (h.lookup_iff p it).mpr hit, hit⟩

/-- Remove a value from the list and from the map. -/
theorem remove (h : Linked l m) {v : α} (hrem : l.Removes v l') :
    Linked l' (m.erase v) where
  nodup := by
    rw [hrem.toList_eq h.nodup]
    exact h.nodup.erase v
  lookup_iff p it := by
    rw [hrem.mem_nodes]
    by_cases hpv : p = v
    · subst hpv
      simp [Finmap.lookup_erase]
    · rw [Finmap.lookup_erase_ne hpv, h.lookup_iff]
      simp [hpv]

/-- Push a new value to the front and map it to its node. -/
theorem push (h : Linked l m) {p : α} (hp : p ∉ l.toList) :
    Linked (l.pushFront p) (m.insert p l.fresh) where
  nodup := List.nodup_cons.mpr ⟨hp, h.nodup⟩
  lookup_iff q it := by
    rw [StdList.pushFront, List.mem_cons]
    by_cases hqp : q = p
    · subst hqp
      have hfresh : (⟨it, q⟩ : Node α) ∉ l.nodes := fun hmem =>
        hp (StdList.mem_toList.mpr ⟨it, hmem⟩)
      rw [Finmap.lookup_insert, Option.some.injEq, Node.mk.injEq]
      simp [hfresh, eq_comm]
    · rw [Finmap.lookup_insert_of_ne _ hqp, h.lookup_iff, Node.mk.injEq]
      simp [hqp]

/-- Replace the node of a value by a new one in front. -/
theorem touch (h : Linked l m) {p : α} (hrem : l.Removes p l') :
    Linked (l'.pushFront p) (m.insert p l'.fresh) := by
  have hfresh : p ∉ l'.toList := by
    rw [hrem.toList_eq h.nodup]
    exact h.nodup.not_mem_erase
  have hpush := (h.remove hrem).push hfresh
  have hmap : (m.erase p).insert p l'.fresh = m.insert p l'.fresh := by
    apply Finmap.ext_lookup
    intro q
    by_cases hqp : q = p
    · subst hqp
      rw [Finmap.lookup_insert, Finmap.lookup_insert]
    · rw [Finmap.lookup_insert_of_ne _ hqp, Finmap.lookup_insert_of_ne _ hqp,
        Finmap.lookup_erase_ne hqp]
  rwa [hmap] at hpush

end Linked
end Cxx
