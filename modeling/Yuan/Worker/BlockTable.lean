import Yuan.Lib.Column

/-!
# The worker's block tables

For every KV cache group a table of rows of block ids, of which a row's first `num_blocks_per_row`
cells are in use. A block of the scheduler may be several blocks of the attention kernel. What the
operations do is stated for the part of the rows that is in use.
-/

namespace Yuan.Worker

structure BlockTable where
  /-- 1 where the kernel uses the scheduler's blocks. -/
  blocksPerKVBlock : Nat := 1
  blockTable : Nat → Nat → Nat := fun _ _ => 0
  numBlocksPerRow : Nat → Nat := fun _ => 0

/-- `BlockTable.map_to_kernel_blocks`. -/
def mapToKernelBlocks (kvManagerBlockIds : List Nat) (blocksPerKVBlock : Nat) : List Nat :=
  if blocksPerKVBlock = 1 then kvManagerBlockIds
  else kvManagerBlockIds.flatMap fun id =>
    (List.range blocksPerKVBlock).map fun k => id * blocksPerKVBlock + k

namespace BlockTable

/-- The cells of a row that are in use. -/
def row (t : BlockTable) (i : Nat) : List Nat :=
  (List.range (t.numBlocksPerRow i)).map (t.blockTable i)

def appendRow (t : BlockTable) (blockIds : List Nat) (rowIdx : Nat) : BlockTable :=
  if blockIds = [] then t
  else
    let blockIds := mapToKernelBlocks blockIds t.blocksPerKVBlock
    let start := t.numBlocksPerRow rowIdx
    { t with
      numBlocksPerRow := Function.update t.numBlocksPerRow rowIdx (start + blockIds.length)
      blockTable :=
        Function.update t.blockTable rowIdx (Row.write (t.blockTable rowIdx) start blockIds) }

def addRow (t : BlockTable) (blockIds : List Nat) (rowIdx : Nat) : BlockTable :=
  appendRow { t with numBlocksPerRow := Function.update t.numBlocksPerRow rowIdx 0 } blockIds rowIdx

def moveRow (t : BlockTable) (src tgt : Nat) : BlockTable :=
  let numBlocks := t.numBlocksPerRow src
  { t with
    blockTable := Function.update t.blockTable tgt
      (Row.copyPrefix (t.blockTable src) (t.blockTable tgt) numBlocks)
    numBlocksPerRow := Function.update t.numBlocksPerRow tgt numBlocks }

def swapRow (t : BlockTable) (src tgt : Nat) : BlockTable :=
  { t with
    numBlocksPerRow := Column.swap t.numBlocksPerRow src tgt
    blockTable := Column.swap t.blockTable src tgt }

/-! ## The rows in use -/

section

variable (t : BlockTable)

section

variable (blockIds : List Nat)

theorem row_appendRow_of_ne {i k : Nat} (h : k ≠ i) : (t.appendRow blockIds i).row k = t.row k := by
  unfold appendRow
  split
  · rfl
  · simp only [row, Function.update_of_ne h]

theorem row_appendRow_self (i : Nat) :
    (t.appendRow blockIds i).row i = t.row i ++ mapToKernelBlocks blockIds t.blocksPerKVBlock := by
  unfold appendRow
  split
  · next hnil =>
      rw [hnil]
      simp [mapToKernelBlocks]
  · simp only [row, Function.update_self]
    rw [List.range_add, List.map_append, List.map_map]
    congr 1
    · apply List.map_congr_left
      intro k hk
      exact Row.write_of_lt _ _ (List.mem_range.mp hk)
    · apply List.ext_getElem
      · simp
      · intro n h1 h2
        rw [List.getElem_map, List.getElem_range]
        apply Row.write_of_getElem? _ (Nat.le_add_right _ _)
        rw [Nat.add_sub_cancel_left]
        exact List.getElem?_eq_getElem h2

theorem row_addRow_of_ne {i k : Nat} (h : k ≠ i) : (t.addRow blockIds i).row k = t.row k := by
  rw [addRow, row_appendRow_of_ne _ _ h]
  simp only [row, Function.update_of_ne h]

theorem row_addRow_self (i : Nat) : (t.addRow blockIds i).row i = mapToKernelBlocks blockIds t.blocksPerKVBlock := by
  rw [addRow, row_appendRow_self]
  simp [row]

end

theorem row_moveRow_of_ne {src tgt k : Nat} (h : k ≠ tgt) : (t.moveRow src tgt).row k = t.row k := by
  simp only [moveRow, row, Function.update_of_ne h]

theorem row_moveRow_self (src tgt : Nat) : (t.moveRow src tgt).row tgt = t.row src := by
  simp only [moveRow, row, Function.update_self]
  apply List.map_congr_left
  intro k hk
  exact Row.copyPrefix_of_lt _ _ (List.mem_range.mp hk)

theorem row_swapRow (src tgt k : Nat) : (t.swapRow src tgt).row k = t.row (Equiv.swap src tgt k) := by
  simp only [swapRow, row, Column.swap_apply]

theorem blocksPerKVBlock_appendRow (blockIds : List Nat) (i : Nat) :
    (t.appendRow blockIds i).blocksPerKVBlock = t.blocksPerKVBlock := by
  unfold appendRow
  split <;> rfl

theorem blocksPerKVBlock_addRow (blockIds : List Nat) (i : Nat) :
    (t.addRow blockIds i).blocksPerKVBlock = t.blocksPerKVBlock :=
  blocksPerKVBlock_appendRow _ blockIds i

end

end BlockTable

/-- One block table for each KV cache group. -/
structure MultiGroupBlockTable where
  blockTables : List BlockTable

namespace MultiGroupBlockTable

/-- The loop that reads `block_ids[i]` for the `i`-th table. -/
def zipTables (f : BlockTable → List Nat → BlockTable) :
    List BlockTable → List (List Nat) → Except PyError (List BlockTable)
  | [], _ => .ok []
  | _ :: _, [] => .error (.indexError "tuple index out of range")
  | t :: tables, ids :: blockIds => do
    let rest ← zipTables f tables blockIds
    return f t ids :: rest

def appendRow (t : MultiGroupBlockTable) (blockIds : List (List Nat)) (rowIdx : Nat) :
    Except PyError MultiGroupBlockTable := do
  let tables ← zipTables (fun table ids => table.appendRow ids rowIdx) t.blockTables blockIds
  return ⟨tables⟩

def addRow (t : MultiGroupBlockTable) (blockIds : List (List Nat)) (rowIdx : Nat) :
    Except PyError MultiGroupBlockTable := do
  let tables ← zipTables (fun table ids => table.addRow ids rowIdx) t.blockTables blockIds
  return ⟨tables⟩

def moveRow (t : MultiGroupBlockTable) (src tgt : Nat) : MultiGroupBlockTable :=
  ⟨t.blockTables.map fun table => table.moveRow src tgt⟩

def swapRow (t : MultiGroupBlockTable) (src tgt : Nat) : MultiGroupBlockTable :=
  ⟨t.blockTables.map fun table => table.swapRow src tgt⟩

/-- The rows in use of all groups. -/
def rows (t : MultiGroupBlockTable) (i : Nat) : List (List Nat) :=
  t.blockTables.map fun table => table.row i

def blocksPerKVBlock (t : MultiGroupBlockTable) : List Nat :=
  t.blockTables.map BlockTable.blocksPerKVBlock

/-- The kernel blocks of a request's blocks, group by group. -/
def kernelRows (blocksPerKVBlock : List Nat) (blockIds : List (List Nat)) : List (List Nat) :=
  List.zipWith (fun n ids => mapToKernelBlocks ids n) blocksPerKVBlock blockIds

theorem zipTables_eq_ok {f : BlockTable → List Nat → BlockTable} {tables tables' : List BlockTable}
    {blockIds : List (List Nat)} (h : zipTables f tables blockIds = .ok tables') :
    tables' = List.zipWith f tables blockIds ∧ tables.length ≤ blockIds.length := by
  induction tables generalizing blockIds tables' with
  | nil =>
    cases h
    exact ⟨rfl, Nat.zero_le _⟩
  | cons t tables ih =>
    cases blockIds with
    | nil => cases h
    | cons ids blockIds =>
      obtain ⟨rest, hrest, hok⟩ := bind_eq_ok.mp h
      cases hok
      obtain ⟨rfl, hlen⟩ := ih hrest
      exact ⟨rfl, Nat.succ_le_succ hlen⟩

/-- A function of the tables that the zipped operation does not change. -/
theorem map_zipWith_eq {γ : Type} {f : BlockTable → List Nat → BlockTable} {g : BlockTable → γ}
    (hg : ∀ t ids, g (f t ids) = g t) {tables : List BlockTable} {blockIds : List (List Nat)}
    (hlen : tables.length ≤ blockIds.length) : (List.zipWith f tables blockIds).map g = tables.map g := by
  induction tables generalizing blockIds with
  | nil => rfl
  | cons t tables ih =>
    cases blockIds with
    | nil => simp at hlen
    | cons ids blockIds =>
      simp only [List.zipWith_cons_cons, List.map_cons, hg]
      rw [ih (Nat.le_of_succ_le_succ hlen)]

variable {t t' : MultiGroupBlockTable} {blockIds : List (List Nat)} {i : Nat}

theorem addRow_eq_ok (h : t.addRow blockIds i = .ok t') :
    t'.rows i = kernelRows t.blocksPerKVBlock blockIds ∧ (∀ k, k ≠ i → t'.rows k = t.rows k) ∧
      t'.blocksPerKVBlock = t.blocksPerKVBlock := by
  obtain ⟨tables, htables, hok⟩ := bind_eq_ok.mp h
  cases hok
  obtain ⟨rfl, hlen⟩ := zipTables_eq_ok htables
  refine ⟨?_, ?_, ?_⟩
  · simp only [rows, kernelRows, blocksPerKVBlock, List.map_zipWith, List.zipWith_map_left,
      BlockTable.row_addRow_self]
  · intro k hk
    exact map_zipWith_eq (fun table ids => BlockTable.row_addRow_of_ne table ids hk) hlen
  · exact map_zipWith_eq (fun table ids => BlockTable.blocksPerKVBlock_addRow table ids i) hlen

theorem appendRow_eq_ok (h : t.appendRow blockIds i = .ok t') :
    t'.rows i = List.zipWith (· ++ ·) (t.rows i) (kernelRows t.blocksPerKVBlock blockIds) ∧
      (∀ k, k ≠ i → t'.rows k = t.rows k) ∧ t'.blocksPerKVBlock = t.blocksPerKVBlock := by
  obtain ⟨tables, htables, hok⟩ := bind_eq_ok.mp h
  cases hok
  obtain ⟨rfl, hlen⟩ := zipTables_eq_ok htables
  refine ⟨?_, ?_, ?_⟩
  · simp only [rows, kernelRows, blocksPerKVBlock]
    clear h htables
    generalize t.blockTables = tables at hlen
    induction tables generalizing blockIds with
    | nil => rfl
    | cons table tables ih =>
      cases blockIds with
      | nil => rfl
      | cons ids blockIds =>
        simp only [List.zipWith_cons_cons, List.map_cons, BlockTable.row_appendRow_self]
        rw [ih (Nat.le_of_succ_le_succ hlen)]
  · intro k hk
    exact map_zipWith_eq (fun table ids => BlockTable.row_appendRow_of_ne table ids hk) hlen
  · exact map_zipWith_eq (fun table ids => BlockTable.blocksPerKVBlock_appendRow _ ids i) hlen

section

variable (t : MultiGroupBlockTable)

theorem rows_moveRow_self (src tgt : Nat) : (t.moveRow src tgt).rows tgt = t.rows src := by
  simp [rows, moveRow, BlockTable.row_moveRow_self]

theorem rows_moveRow_of_ne {src tgt k : Nat} (h : k ≠ tgt) : (t.moveRow src tgt).rows k = t.rows k := by
  simp [rows, moveRow, BlockTable.row_moveRow_of_ne _ h]

theorem rows_swapRow (src tgt k : Nat) : (t.swapRow src tgt).rows k = t.rows (Equiv.swap src tgt k) := by
  simp [rows, swapRow, BlockTable.row_swapRow]

@[simp] theorem blocksPerKVBlock_moveRow (src tgt : Nat) :
    (t.moveRow src tgt).blocksPerKVBlock = t.blocksPerKVBlock := by
  simp [blocksPerKVBlock, moveRow, BlockTable.moveRow]

@[simp] theorem blocksPerKVBlock_swapRow (src tgt : Nat) :
    (t.swapRow src tgt).blocksPerKVBlock = t.blocksPerKVBlock := by
  simp [blocksPerKVBlock, swapRow, BlockTable.swapRow]

end

end MultiGroupBlockTable

end Yuan.Worker
