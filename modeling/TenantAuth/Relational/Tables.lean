import Mathlib.Data.List.Nodup
set_option autoImplicit false

/-! Tables as `CREATE TABLE` declares them: typed columns, keys, foreign keys with what a deletion
does, and what it is for the rows of a database to keep to all that. -/

namespace Relational

inductive ColumnType where
  | uuid
  | varchar (n : Nat)
  | boolean
  | timestamp
  | jsonb
  deriving DecidableEq, Repr

/-- A value other than NULL. `J` is the type of JSON documents. -/
inductive Datum (J : Type) where
  | uuid (u : Nat)
  | text (s : String)
  | bool (b : Bool)
  | time (t : Nat)
  | json (j : J)
  deriving DecidableEq, Repr

/-- PostgreSQL has no NUL in a text, and no more than `n` characters in a `varchar(n)`. -/
def varchar (n : Nat) (s : String) : Bool := s.length ≤ n && !s.toList.contains '\x00'

/-- It cuts off what is too much when that is blanks. -/
def cut (n : Nat) (s : String) : String :=
  if (s.toList.drop n).all (· = ' ') then String.ofList (s.toList.take n) else s

def ColumnType.takes {J : Type} : ColumnType → Datum J → Bool
  | .uuid,.uuid _ | .boolean,.bool _ | .timestamp,.time _ | .jsonb,.json _ => true
  | .varchar n,.text s => Relational.varchar n s
  | _,_ => false

/-- What the column is given for a value. -/
def ColumnType.stored {J : Type} : ColumnType → Datum J → Datum J
  | .varchar n,.text s => .text (cut n s)
  | _,v => v

section
variable {J : Type}

@[simp] theorem takes_uuid {u : Nat} : ColumnType.uuid.takes (.uuid u : Datum J) = true := rfl
@[simp] theorem takes_bool {b : Bool} : ColumnType.boolean.takes (.bool b : Datum J) = true := rfl
@[simp] theorem takes_time {t : Nat} : ColumnType.timestamp.takes (.time t : Datum J) = true := rfl
@[simp] theorem takes_json {j : J} : ColumnType.jsonb.takes (.json j) = true := rfl
@[simp] theorem takes_varchar {n : Nat} {s : String} :
    (ColumnType.varchar n).takes (.text s : Datum J) = varchar n s := rfl

end

theorem cut_of_length_le {n : Nat} {s : String} (h : s.length ≤ n) : cut n s = s := by
  have htake : s.toList.take n = s.toList :=
    List.take_of_length_le (by rwa [String.length_toList])
  rw [cut,htake,String.ofList_toList,ite_self]

theorem cut_of_varchar {n : Nat} {s : String} (h : varchar n s = true) : cut n s = s := by
  simp only [varchar,Bool.and_eq_true,decide_eq_true_eq] at h
  exact cut_of_length_le h.1

/-- `DEFAULT now()`, `DEFAULT gen_random_uuid()` and constants. -/
inductive Default where
  | now
  | genRandomUuid
  | bool (b : Bool)
  deriving DecidableEq, Repr

/-- What these functions return while a statement runs. -/
structure Draws where
  now : Nat
  uuid : Nat
  deriving DecidableEq, Repr

def Default.value {J : Type} (x : Draws) : Default → Datum J
  | .now => .time x.now
  | .genRandomUuid => .uuid x.uuid
  | .bool b => .bool b

structure Column (κ : Type) where
  name : κ
  type : ColumnType
  nullable : Bool := false
  default : Option Default := none
  deriving DecidableEq, Repr

inductive OnDelete where
  | noAction
  | restrict
  | cascade
  | setNull
  deriving DecidableEq, Repr

structure ForeignKey (τ κ : Type) where
  column : κ
  target : τ
  targetColumn : κ
  onDelete : OnDelete := .noAction
  deriving DecidableEq, Repr

structure Index (κ : Type) where
  name : String
  columns : List κ
  unique : Bool
  deriving DecidableEq, Repr

structure TableDef (τ κ : Type) where
  name : τ
  columns : List (Column κ)
  /-- The primary key and the unique constraints. -/
  keys : List (List κ)
  foreignKeys : List (ForeignKey τ κ) := []
  indexes : List (Index κ) := []
  deriving DecidableEq, Repr

def TableDef.uniqueKeys {τ κ : Type} (t : TableDef τ κ) : List (List κ) :=
  t.keys ++ (t.indexes.filter Index.unique).map Index.columns

/-- `none` is NULL, and what is read at a column that the table does not have. -/
abbrev Row (κ J : Type) := κ → Option (Datum J)

structure Relation (τ κ J : Type) where
  table : TableDef τ κ
  rows : List (Row κ J)

/-- The relations in the order of their creation. -/
abbrev Database (τ κ J : Type) := List (Relation τ κ J)

section
variable {τ κ J : Type} [DecidableEq τ] [DecidableEq κ] [DecidableEq J]

def Database.relation (g : Database τ κ J) (name : τ) : Option (Relation τ κ J) :=
  g.find? fun r => r.table.name = name

def Database.rows (g : Database τ κ J) (name : τ) : List (Row κ J) :=
  ((g.relation name).map Relation.rows).getD []

/-- The column can hold what a row has there. -/
def Column.admits (c : Column κ) : Option (Datum J) → Bool
  | none => c.nullable
  | some v => c.type.takes v

omit [DecidableEq κ] [DecidableEq J] in
@[simp] theorem admits_some {c : Column κ} {v : Datum J} :
    c.admits (some v) = c.type.takes v := rfl

omit [DecidableEq κ] [DecidableEq J] in
theorem admits_nullable {α : Type} {c : Column κ} (h : c.nullable = true) {f : α → Datum J}
    {v : Option α} : c.admits (v.map f) = true ↔ ∀ a ∈ v, c.type.takes (f a) = true := by
  cases v <;> simp [Column.admits,h]

/-- Two rows that a unique key does not let stand beside each other: NULLs are distinct. -/
def Clash (key : List κ) (a b : Row κ J) : Prop := ∀ c ∈ key, a c ≠ none ∧ a c = b c

instance (key : List κ) (a b : Row κ J) : Decidable (Clash key a b) := by
  unfold Clash
  infer_instance

omit [DecidableEq κ] [DecidableEq J] in
@[simp] theorem clash_nil {a b : Row κ J} : Clash [] a b ↔ True := by simp [Clash]

omit [DecidableEq κ] [DecidableEq J] in
@[simp] theorem clash_cons {c : κ} {key : List κ} {a b : Row κ J} :
    Clash (c :: key) a b ↔ (a c ≠ none ∧ a c = b c) ∧ Clash key a b := List.forall_mem_cons

/-- The row refers to a row that is not there. -/
def Dangles (g : Database τ κ J) (fk : ForeignKey τ κ) (row : Row κ J) : Prop :=
  ∃ v ∈ row fk.column, ∀ r ∈ g.rows fk.target, r fk.targetColumn ≠ some v

instance (g : Database τ κ J) (fk : ForeignKey τ κ) (row : Row κ J) :
    Decidable (Dangles g fk row) := by
  unfold Dangles
  infer_instance

/-- The rows of a relation of the database keep to its table. -/
def Relation.Sound (g : Database τ κ J) (r : Relation τ κ J) : Prop :=
  (∀ row ∈ r.rows, ∀ c ∈ r.table.columns, c.admits (row c.name) = true) ∧
  (∀ key ∈ r.table.uniqueKeys, r.rows.Pairwise fun a b => ¬ Clash key a b) ∧
  ∀ fk ∈ r.table.foreignKeys, ∀ row ∈ r.rows, ¬ Dangles g fk row

instance (g : Database τ κ J) (r : Relation τ κ J) : Decidable (r.Sound g) := by
  unfold Relation.Sound
  infer_instance

def Database.Sound (g : Database τ κ J) : Prop := ∀ r ∈ g, r.Sound g

instance (g : Database τ κ J) : Decidable g.Sound := by
  unfold Database.Sound
  infer_instance

end

end Relational
