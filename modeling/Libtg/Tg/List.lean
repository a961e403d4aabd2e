import Libtg.Lib.Transition

/-!
# The linked list (`tg/list.h`)

A list is a pointer to a node, and a node an item and a pointer to the node added before it. The
functions below work on the nodes in memory; `Lists` says which items a pointer leads to, in the
order `list_for_each` meets them. On these items `list_add` is `cons`, `list_cut` is `find?` with
`eraseP`, wherever the node stands, and `list_free` leaves none.
-/

namespace Libtg

/-- `struct list`. -/
structure Node (α : Type) where
  prev : Option Nat
  data : α

/-- The allocated nodes by address. -/
abbrev Nodes (α : Type) := Nat → Option (Node α)

variable {α : Type}

/-- `list_add`, where `malloc` answers `n`. -/
def listAdd (h : Nodes α) (list : Option Nat) (n : Nat) (item : α) : Nodes α × Option Nat :=
  (Function.update h n (some ⟨list, item⟩), some n)

/-- The loop of `list_cut`: at the node `l` behind `prev`, in at most that many rounds. A pointer to
a node that is not allocated is `none`. -/
def listCutFrom (cmp : α → Bool) (h : Nodes α) (list : Option Nat) :
    Nat → Option Nat → Option Nat → Option (Option α × Nodes α × Option Nat)
  | _, none, _ => some (none, h, list)
  | 0, some _, _ => none
  | n + 1, some l, prev => do
    let node ← h l
    if cmp node.data then
      match prev with
      | some p =>
        let behind ← h p
        let h := Function.update h p (some { behind with prev := node.prev })
        return (some node.data, Function.update h l none, list)
      | none => return (some node.data, Function.update h l none, node.prev)
    else listCutFrom cmp h list n node.prev (some l)

/-- `list_cut`. -/
def listCut (cmp : α → Bool) (h : Nodes α) (list : Option Nat) (rounds : Nat) :
    Option (Option α × Nodes α × Option Nat) :=
  listCutFrom cmp h list rounds list none

/-- `list_free`. -/
def listFree (h : Nodes α) : Nat → Option Nat → Option (Nodes α)
  | _, none => some h
  | 0, some _ => none
  | n + 1, some l => do
    let node ← h l
    listFree (Function.update h l none) n node.prev

/-! ## The items of a list -/

/-- From `l` on there are exactly these nodes, given as addresses with items. -/
def Chain (h : Nodes α) : Option Nat → List (Nat × α) → Prop
  | l, [] => l = none
  | l, (a, x) :: nodes =>
    l = some a ∧ a ∉ nodes.map Prod.fst ∧ ∃ prev, h a = some ⟨prev, x⟩ ∧ Chain h prev nodes

def Lists (h : Nodes α) (list : Option Nat) (items : List α) : Prop :=
  ∃ nodes, Chain h list nodes ∧ nodes.map Prod.snd = items

variable {h h' : Nodes α} {list l : Option Nat} {items : List α} {nodes : List (Nat × α)}
  {cmp : α → Bool}

/-- A write outside of a chain leaves it. -/
theorem Chain.congr (hc : Chain h l nodes) (heq : ∀ a ∈ nodes.map Prod.fst, h' a = h a) :
    Chain h' l nodes := by
  induction nodes generalizing l with
  | nil => exact hc
  | cons node nodes ih =>
    obtain ⟨a, x⟩ := node
    obtain ⟨hl, hfresh, prev, ha, hrest⟩ := hc
    refine ⟨hl, hfresh, prev, ?_, ih hrest fun b hb => heq b (List.mem_cons_of_mem _ hb)⟩
    rw [heq a List.mem_cons_self, ha]

theorem Chain.update (hc : Chain h l nodes) {a : Nat} (ha : a ∉ nodes.map Prod.fst)
    (node : Option (Node α)) : Chain (Function.update h a node) l nodes :=
  hc.congr fun _ hb => Function.update_of_ne (ne_of_mem_of_not_mem hb ha) _ _

/-- `list_add` puts the item in front. -/
theorem lists_listAdd (hl : Lists h list items) {n : Nat} (hn : h n = none) (item : α) :
    Lists (listAdd h list n item).1 (listAdd h list n item).2 (item :: items) := by
  obtain ⟨nodes, hc, rfl⟩ := hl
  have hfresh : n ∉ nodes.map Prod.fst := by
    clear item
    induction nodes generalizing list with
    | nil => exact List.not_mem_nil
    | cons node nodes ih =>
      obtain ⟨a, x⟩ := node
      obtain ⟨-, -, prev, ha, hrest⟩ := hc
      rw [List.map_cons, List.mem_cons, not_or]
      refine ⟨?_, ih hrest⟩
      rintro rfl
      rw [hn] at ha
      cases ha
  exact ⟨(n, item) :: nodes, ⟨rfl, hfresh, list, Function.update_self _ _ _, hc.update hfresh _⟩,
    rfl⟩

/-- The nodes after a cut. -/
def cutNodes (cmp : α → Bool) (nodes : List (Nat × α)) : List (Nat × α) :=
  nodes.eraseP fun node => cmp node.2

theorem map_cutNodes : (cutNodes cmp nodes).map Prod.snd = (nodes.map Prod.snd).eraseP cmp := by
  rw [cutNodes, List.eraseP_map]
  rfl

/-- The loop behind a node `(p, y)` that did not match: the rest of the chain is cut, and what stood
in front of it stays. -/
theorem listCutFrom_behind (cmp : α → Bool) (list : Option Nat) {n p : Nat} {y : α}
    (hc : Chain h (some p) ((p, y) :: nodes))
    (hn : nodes.length ≤ n) :
    ∃ prev h', h p = some ⟨prev, y⟩ ∧
      listCutFrom cmp h list n prev (some p) = some ((nodes.map Prod.snd).find? cmp, h', list) ∧
      Chain h' (some p) ((p, y) :: cutNodes cmp nodes) ∧
      ∀ b, b ∉ ((p, y) :: nodes).map Prod.fst → h' b = h b := by
  induction nodes generalizing n p y with
  | nil =>
    obtain ⟨-, -, prev, hp, rfl⟩ := hc
    refine ⟨none, h, hp, ?_, ⟨rfl, List.not_mem_nil, none, hp, rfl⟩, fun _ _ => rfl⟩
    cases n <;> rfl
  | cons node nodes ih =>
    obtain ⟨a, x⟩ := node
    obtain ⟨-, hpfresh, prev, hp, rfl, hafresh, next, ha, hrest⟩ := hc
    obtain ⟨n, rfl⟩ : ∃ m, n = m + 1 := ⟨n - 1, by simp at hn; omega⟩
    rw [List.map_cons, List.mem_cons, not_or] at hpfresh
    by_cases hx : cmp x = true
    · have hfind : (((a, x) :: nodes).map Prod.snd).find? cmp = some x := by simp [hx]
      have hcut : cutNodes cmp ((a, x) :: nodes) = nodes := by simp [cutNodes, hx]
      refine ⟨some a, Function.update (Function.update h p (some ⟨next, y⟩)) a none, hp, ?_, ?_, ?_⟩
      · simp only [listCutFrom, ha, hx, hp, hfind, Option.bind_eq_bind, Option.bind_some, if_true]
        rfl
      · rw [hcut]
        refine ⟨rfl, hpfresh.2, next, ?_, (hrest.update hpfresh.2 _).update hafresh _⟩
        rw [Function.update_of_ne hpfresh.1, Function.update_self]
      · intro b hb
        simp only [List.map_cons, List.mem_cons, not_or] at hb
        rw [Function.update_of_ne hb.2.1, Function.update_of_ne hb.1]
    · have hfind : (((a, x) :: nodes).map Prod.snd).find? cmp = (nodes.map Prod.snd).find? cmp := by
        simp [hx]
      have hcut : cutNodes cmp ((a, x) :: nodes) = (a, x) :: cutNodes cmp nodes := by
        simp [cutNodes, hx]
      obtain ⟨next', h', ha', hrun, hchain, hframe⟩ :=
        ih (n := n) (p := a) (y := x) ⟨rfl, hafresh, next, ha, hrest⟩
          (by simp at hn; omega)
      obtain rfl : next = next' := by
        rw [ha] at ha'
        exact (Node.mk.inj (Option.some.inj ha')).1
      have hp' : h' p = h p := hframe p (by simpa using ⟨hpfresh.1, by simpa using hpfresh.2⟩)
      refine ⟨some a, h', hp, ?_, ?_, ?_⟩
      · simp only [listCutFrom, ha, hx, Option.bind_eq_bind, Option.bind_some, hfind, hrun]
        rfl
      · rw [hcut]
        refine ⟨rfl, ?_, some a, by rw [hp', hp], hchain⟩
        rw [List.map_cons, List.mem_cons, not_or]
        exact ⟨hpfresh.1, fun hmem => hpfresh.2
          ((List.eraseP_sublist.map Prod.fst).subset hmem)⟩
      · intro b hb
        rw [List.map_cons, List.mem_cons, not_or] at hb
        exact hframe b hb.2

/-- `list_cut` answers the first item that matches and takes it, and only it, out of the list. -/
theorem lists_listCut (hl : Lists h list items) {rounds : Nat} (hr : items.length ≤ rounds) :
    ∃ h' list', listCut cmp h list rounds = some (items.find? cmp, h', list') ∧
      Lists h' list' (items.eraseP cmp) := by
  obtain ⟨nodes, hc, rfl⟩ := hl
  rw [List.length_map] at hr
  cases nodes with
  | nil =>
    cases hc
    refine ⟨h, none, ?_, [], rfl, rfl⟩
    cases rounds <;> rfl
  | cons node nodes =>
    obtain ⟨a, x⟩ := node
    obtain ⟨rounds, rfl⟩ : ∃ m, rounds = m + 1 := ⟨rounds - 1, by simp at hr; omega⟩
    obtain ⟨rfl, hfresh, next, ha, hrest⟩ := id hc
    by_cases hx : cmp x = true
    · refine ⟨Function.update h a none, next, ?_, nodes, hrest.update hfresh _, by simp [hx]⟩
      simp only [listCut, listCutFrom, ha, hx, Option.bind_eq_bind, Option.bind_some, if_true,
        List.map_cons, List.find?_cons]
      rfl
    · obtain ⟨next', h', ha', hrun, hchain, -⟩ :=
        listCutFrom_behind cmp (some a) hc (n := rounds) (by simpa using hr)
      obtain rfl : next = next' := by
        rw [ha] at ha'
        exact (Node.mk.inj (Option.some.inj ha')).1
      refine ⟨h', some a, ?_, _, hchain, by simp [hx, map_cutNodes]⟩
      simp only [listCut, listCutFrom, ha, hx, Option.bind_eq_bind, Option.bind_some, hrun,
        List.map_cons, List.find?_cons]
      rfl

/-- `list_free` frees every node of the list and touches no other. -/
theorem listFree_eq (hc : Chain h list nodes) {n : Nat} (hn : nodes.length ≤ n) :
    ∃ h', listFree h n list = some h' ∧
      ∀ b, h' b = if b ∈ nodes.map Prod.fst then none else h b := by
  induction nodes generalizing h list n with
  | nil =>
    cases hc
    refine ⟨h, ?_, fun b => rfl⟩
    cases n <;> rfl
  | cons node nodes ih =>
    obtain ⟨a, x⟩ := node
    obtain ⟨rfl, hfresh, prev, ha, hrest⟩ := hc
    obtain ⟨n, rfl⟩ : ∃ m, n = m + 1 := ⟨n - 1, by simp at hn; omega⟩
    obtain ⟨h', hrun, hfreed⟩ := ih (hrest.update hfresh none) (n := n) (by simp at hn; omega)
    refine ⟨h', by simp only [listFree, ha, Option.bind_eq_bind, Option.bind_some, hrun], ?_⟩
    intro b
    rw [hfreed, List.map_cons]
    by_cases hb : b = a
    · simp [hb]
    · simp only [Function.update_of_ne hb, List.mem_cons, hb, false_or]

/-! ## Cutting an item out -/

/-- Where no item stands twice, the one that is cut out is gone. -/
theorem not_mem_eraseP_of_find? {l : List α} {x : α} (hd : l.Nodup) (hx : l.find? cmp = some x) :
    x ∉ l.eraseP cmp := by
  induction l with
  | nil => cases hx
  | cons y l ih =>
    rw [List.nodup_cons] at hd
    by_cases hy : cmp y = true
    · rw [List.find?_cons_of_pos hy] at hx
      cases hx
      rw [List.eraseP_cons_of_pos hy]
      exact hd.1
    · rw [List.find?_cons_of_neg hy] at hx
      rw [List.eraseP_cons_of_neg hy, List.mem_cons, not_or]
      refine ⟨fun hxy => hd.1 (hxy ▸ List.mem_of_find?_eq_some hx), ih hd.2 hx⟩

/-- An item other than the one that is cut out stays. -/
theorem mem_eraseP_of_find? {l : List α} {x : α} (hx : x ∈ l)
    (hfind : l.find? cmp ≠ some x) : x ∈ l.eraseP cmp := by
  induction l with
  | nil => exact hx
  | cons y l ih =>
    by_cases hy : cmp y = true
    · rw [List.find?_cons_of_pos hy] at hfind
      rw [List.eraseP_cons_of_pos hy]
      exact (List.mem_cons.mp hx).resolve_left fun hxy => hfind (by rw [hxy])
    · rw [List.find?_cons_of_neg hy] at hfind
      rw [List.eraseP_cons_of_neg hy]
      rcases List.mem_cons.mp hx with rfl | hx
      · exact List.mem_cons_self
      · exact List.mem_cons_of_mem _ (ih hx hfind)

/-- The item that is found is the one that is cut out. -/
theorem eraseP_of_find? [BEq α] [LawfulBEq α] {l : List α} {x : α} (hx : l.find? cmp = some x) :
    l.eraseP cmp = l.erase x := by
  induction l with
  | nil => cases hx
  | cons y l ih =>
    by_cases hy : cmp y = true
    · rw [List.find?_cons_of_pos hy] at hx
      cases hx
      rw [List.eraseP_cons_of_pos hy, List.erase_cons_head]
    · rw [List.find?_cons_of_neg hy] at hx
      have hne : y ≠ x := fun hyx => hy (hyx ▸ List.find?_some hx)
      rw [List.eraseP_cons_of_neg hy, List.erase_cons_tail (by simpa using hne), ih hx]

end Libtg
