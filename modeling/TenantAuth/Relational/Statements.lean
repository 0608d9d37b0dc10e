import TenantAuth.Relational.Tables
set_option autoImplicit false

/-! INSERT, UPDATE and DELETE. A statement is carried out as a whole, and refused if a row would not
keep to its table. -/

namespace Relational
section
variable {τ κ J : Type} [DecidableEq τ] [DecidableEq κ] [DecidableEq J]

inductive Refusal where
  | undefinedTable
  | undefinedColumn
  | duplicateRelation
  | dependentObjects
  | violation
  /-- An UPDATE by key has found no row. -/
  | stale
  deriving DecidableEq, Repr

inductive Statement (τ κ J : Type) where
  /-- What is not given comes from the default of the column. -/
  | insert (table : τ) (values : List (κ × Option (Datum J))) (x : Draws)
  | update (table : τ) (key : κ) (k : Datum J) (sets : List (κ × Option (Datum J)))
  | delete (table : τ) (keys : List (κ × Datum J))

def Statement.table : Statement τ κ J → τ
  | .insert table _ _ | .update table _ _ _ | .delete table _ => table

def Statement.columns : Statement τ κ J → List κ
  | .insert _ values _ => values.map Prod.fst
  | .update _ key _ sets => key :: sets.map Prod.fst
  | .delete _ keys => keys.map Prod.fst

def TableDef.knows (t : TableDef τ κ) (columns : List κ) : Bool :=
  columns.all fun c => t.columns.any fun column => column.name = c

def TableDef.newRow (t : TableDef τ κ) (values : List (κ × Option (Datum J))) (x : Draws) : Row κ J :=
  fun c =>
    match t.columns.find? fun column => column.name = c with
    | none => none
    | some column =>
      match values.lookup c with
      | some v => v.map column.type.stored
      | none => column.default.map (Default.value x)

def TableDef.stored (t : TableDef τ κ) (c : κ) (v : Datum J) : Datum J :=
  match t.columns.find? fun column => column.name = c with
  | none => v
  | some column => column.type.stored v

def TableDef.assign (t : TableDef τ κ) (row : Row κ J) (sets : List (κ × Option (Datum J))) :
    Row κ J :=
  fun c => ((sets.lookup c).map fun v => v.map (t.stored c)).getD (row c)

def Row.agrees (row : Row κ J) (keys : List (κ × Datum J)) : Bool :=
  keys.all fun x => row x.1 = some x.2

def Database.modify (g : Database τ κ J) (name : τ) (f : List (Row κ J) → List (Row κ J)) :
    Database τ κ J :=
  g.map fun r => if r.table.name = name then { r with rows := f r.rows } else r

/-- The row goes with one that is gone. -/
def Follows (g : Database τ κ J) (t : TableDef τ κ) (row : Row κ J) : Prop :=
  ∃ fk ∈ t.foreignKeys, fk.onDelete = .cascade ∧ Dangles g fk row

instance (g : Database τ κ J) (t : TableDef τ κ) (row : Row κ J) : Decidable (Follows g t row) := by
  unfold Follows
  infer_instance

/-- The row does not let the one go that it refers to. -/
def Restricts (g : Database τ κ J) (t : TableDef τ κ) (row : Row κ J) : Prop :=
  ∃ fk ∈ t.foreignKeys, fk.onDelete = .restrict ∧ Dangles g fk row

instance (g : Database τ κ J) (t : TableDef τ κ) (row : Row κ J) : Decidable (Restricts g t row) := by
  unfold Restricts
  infer_instance

/-- `ON DELETE SET NULL`. -/
def Row.unset (g : Database τ κ J) (t : TableDef τ κ) (row : Row κ J) : Row κ J :=
  fun c =>
    if ∃ fk ∈ t.foreignKeys, fk.onDelete = .setNull ∧ fk.column = c ∧ Dangles g fk row then none
    else row c

/-- What is left of a relation when `kept` is what is left of those before it. -/
def Relation.settled (kept : Database τ κ J) (r : Relation τ κ J) : Relation τ κ J where
  table := r.table
  rows := (r.rows.filter fun row => ¬ Follows kept r.table row).map (Row.unset kept r.table)

/-- What a deletion does to the rows that refer to others. A table refers to tables before it
only. -/
def settle : Database τ κ J → Database τ κ J → Except Refusal (Database τ κ J)
  | kept,[] => .ok kept
  | kept,r :: rest =>
    if ∃ row ∈ r.rows, Restricts kept r.table row then .error .violation
    else settle (kept ++ [r.settled kept]) rest

def Statement.effect : Statement τ κ J → TableDef τ κ → Database τ κ J →
    Except Refusal (Database τ κ J)
  | .insert table values x, t, g => .ok (g.modify table fun rows => rows ++ [t.newRow values x])
  | .update table key k sets, t, g => .ok (g.modify table fun rows => rows.map fun row =>
      if row key = some k then t.assign row sets else row)
  | .delete table keys, _, g =>
    settle [] (g.modify table fun rows => rows.filter fun row => ¬ row.agrees keys)

def Statement.exec (st : Statement τ κ J) (g : Database τ κ J) :
    Except Refusal (Database τ κ J) :=
  match g.relation st.table with
  | none => .error .undefinedTable
  | some r =>
    if r.table.knows st.columns then
      match st.effect r.table g with
      | .error e => .error e
      | .ok g' => if g'.Sound then .ok g' else .error .violation
    else .error .undefinedColumn

def Database.found (g : Database τ κ J) (table : τ) (key : κ) (k : Datum J) : Nat :=
  ((g.rows table).filter fun row => row key = some k).length

/-- A statement of an object-relational mapper, which wants an UPDATE to find its row. -/
def Statement.emit (st : Statement τ κ J) (g : Database τ κ J) :
    Except Refusal (Database τ κ J) :=
  match st.exec g with
  | .error e => .error e
  | .ok g' =>
    match st with
    | .update table key k _ => if g.found table key k = 0 then .error .stale else .ok g'
    | _ => .ok g'

def emitAll : List (Statement τ κ J) → Database τ κ J → Except Refusal (Database τ κ J)
  | [], g => .ok g
  | st :: sts, g =>
    match st.emit g with
    | .error e => .error e
    | .ok g' => emitAll sts g'

theorem lookup_single {β : Type} (b : β) (c c' : κ) :
    [(c,b)].lookup c' = if c' = c then some b else none := by
  rw [List.lookup_cons,List.lookup_nil]
  by_cases h : c' = c
  · simp [h]
  · simp [h,beq_eq_false_iff_ne.mpr h]

theorem lookup_optional {α β : Type} (o : Option α) (f : α → β) (c c' : κ) :
    (o.toList.map fun v => (c,f v)).lookup c' = if c' = c then o.map f else none := by
  cases o with
  | none => simp
  | some a => exact lookup_single (f a) c c'

omit [DecidableEq τ] in
theorem TableDef.knows_append {t : TableDef τ κ} {cs cs' : List κ} :
    t.knows (cs ++ cs') = (t.knows cs && t.knows cs') := List.all_append

omit [DecidableEq τ] in
theorem TableDef.knows_optional {t : TableDef τ κ} {c : κ} {α β : Type} (h : t.knows [c] = true)
    (o : Option α) (f : α → β) : t.knows ((o.toList.map fun v => (c,f v)).map Prod.fst) = true := by
  cases o with
  | none => rfl
  | some a => exact h

section Results
variable {st : Statement τ κ J} {sts : List (Statement τ κ J)} {g g' : Database τ κ J}

theorem exec_eq (st : Statement τ κ J) {r : Relation τ κ J} (hr : g.relation st.table = some r)
    (hk : r.table.knows st.columns = true) (he : st.effect r.table g = .ok g') :
    st.exec g = if g'.Sound then .ok g' else .error .violation := by
  simp only [Statement.exec,hr,hk,if_true,he]

omit [DecidableEq κ] [DecidableEq J] in
theorem not_sound_insert {name : τ} {r : Relation τ κ J} {old row : Row κ J} {key : List κ}
    (hr : g.relation name = some r) (ho : old ∈ r.rows) (hk : key ∈ r.table.uniqueKeys)
    (hc : Clash key old row) : ¬ (g.modify name fun rows => rows ++ [row]).Sound := by
  intro hs
  have hname : r.table.name = name := by simpa using List.find?_some hr
  have hin : ⟨r.table,r.rows ++ [row]⟩ ∈ g.modify name fun rows => rows ++ [row] :=
    List.mem_map.mpr ⟨r,List.mem_of_find?_eq_some hr,if_pos hname⟩
  obtain ⟨-,hkeys,-⟩ := hs _ hin
  exact (List.pairwise_append.mp (hkeys key hk)).2.2 old ho row (by simp) hc

theorem emit_null {table : τ} {key : κ} {k : Datum J} {sets : List (κ × Option (Datum J))}
    {r : Relation τ κ J} {c : Column κ} (hr : g.relation table = some r)
    (hk : r.table.knows (key :: sets.map Prod.fst) = true) (hc : c ∈ r.table.columns)
    (hn : c.nullable = false) (hset : sets.lookup c.name = some none) :
    ∃ e, (Statement.update table key k sets).emit g = .error e := by
  have hexec := exec_eq (.update table key k sets) hr hk rfl
  have hname : r.table.name = table := by simpa using List.find?_some hr
  by_cases hfound : g.found table key k = 0
  · split at hexec
    · exact ⟨.stale,by rw [Statement.emit,hexec]; exact if_pos hfound⟩
    · exact ⟨.violation,by rw [Statement.emit,hexec]⟩
  · obtain ⟨row,hrow⟩ := List.exists_mem_of_length_pos (Nat.pos_of_ne_zero hfound)
    obtain ⟨hrow,hkey⟩ := List.mem_filter.mp hrow
    rw [Database.rows,hr] at hrow
    rw [if_neg] at hexec
    · exact ⟨.violation,by rw [Statement.emit,hexec]⟩
    · intro hs
      have hin : ⟨r.table,r.rows.map fun row =>
            if row key = some k then r.table.assign row sets else row⟩ ∈
          g.modify table fun rows => rows.map fun row =>
            if row key = some k then r.table.assign row sets else row :=
        List.mem_map.mpr ⟨r,List.mem_of_find?_eq_some hr,if_pos hname⟩
      have hadmits := (hs _ hin).1 (r.table.assign row sets)
        (List.mem_map.mpr ⟨row,hrow,if_pos (of_decide_eq_true hkey)⟩) c hc
      simp [TableDef.assign,hset,Column.admits,hn] at hadmits

theorem emitAll_append (h : emitAll sts g = .ok g') (sts' : List (Statement τ κ J)) :
    emitAll (sts ++ sts') g = emitAll sts' g' := by
  induction sts generalizing g with
  | nil =>
    cases h
    rfl
  | cons st sts ih =>
    rw [emitAll] at h
    rw [List.cons_append,emitAll]
    cases he : st.emit g with
    | error e => simp [he] at h
    | ok g1 =>
      simp only [he] at h
      exact ih h

theorem emitAll_single : emitAll [st] g = st.emit g := by
  rw [emitAll]
  cases st.emit g <;> rfl

/-- The rows that refer to a row that is gone follow it, where they all refer by a key that
cascades. -/
theorem settle_cascade {kept rest : Database τ κ J} {r : Relation τ κ J} {p : Row κ J → Bool}
    (hgone : ∀ row ∈ r.rows, p row = false → Follows kept r.table row)
    (hkept : ∀ fk ∈ r.table.foreignKeys, ∀ row ∈ r.rows, p row = true → ¬ Dangles kept fk row)
    (hall : ∀ fk ∈ r.table.foreignKeys, fk.onDelete = .restrict → ∀ row ∈ r.rows,
      ¬ Dangles kept fk row) :
    settle kept (r :: rest) = settle (kept ++ [⟨r.table,r.rows.filter p⟩]) rest := by
  have hrestricts : ¬ ∃ row ∈ r.rows, Restricts kept r.table row :=
    fun ⟨row,hrow,fk,hfk,hr,hd⟩ => hall fk hfk hr row hrow hd
  have hsettled : r.settled kept = ⟨r.table,r.rows.filter p⟩ := by
    have hfollow : (r.rows.filter fun row => ¬ Follows kept r.table row) = r.rows.filter p := by
      refine List.filter_congr fun row hrow => ?_
      cases hp : p row with
      | false => simp [hgone row hrow hp]
      | true => exact decide_eq_true fun ⟨fk,hfk,_,hd⟩ => hkept fk hfk row hrow hp hd
    have hunset : (r.rows.filter p).map (Row.unset kept r.table) = r.rows.filter p := by
      refine (List.map_congr_left fun row hrow => ?_).trans (List.map_id _)
      obtain ⟨hrow,hp⟩ := List.mem_filter.mp hrow
      funext c
      exact if_neg fun ⟨fk,hfk,_,_,hd⟩ => hkept fk hfk row hrow hp hd
    rw [Relation.settled,hfollow,hunset]
  rw [settle,if_neg hrestricts,hsettled]

end Results

section Deletions
variable {g kept rest : Database τ κ J} {name : τ} {r : Relation τ κ J}

/-- Each table refers to tables before it only. -/
def Ordered : List τ → List (TableDef τ κ) → Prop
  | _,[] => True
  | names,t :: ts => (∀ fk ∈ t.foreignKeys, fk.target ∈ names) ∧ Ordered (names ++ [t.name]) ts

omit [DecidableEq κ] [DecidableEq J] in
theorem rows_append (h : ∃ r ∈ kept, r.table.name = name) :
    (kept ++ rest : Database τ κ J).rows name = kept.rows name := by
  have hsome : (kept.relation name).isSome = true := by
    simpa [Database.relation] using h
  obtain ⟨r,hr⟩ := Option.isSome_iff_exists.mp hsome
  unfold Database.rows Database.relation at *
  rw [List.find?_append,hr]
  rfl

/-- A deletion ends where every row that is left finds what it refers to, and every row that is
gone follows one that is gone. -/
theorem settle_filter (p : τ → Row κ J → Bool)
    (hord : Ordered (kept.map fun r => r.table.name) (rest.map Relation.table))
    (hgone : ∀ r ∈ rest, ∀ row ∈ r.rows, p r.table.name row = false →
      Follows (kept ++ rest.map fun r => ⟨r.table,r.rows.filter (p r.table.name)⟩) r.table row)
    (hkept : ∀ r ∈ rest, ∀ fk ∈ r.table.foreignKeys, ∀ row ∈ r.rows,
      p r.table.name row = true ∨ fk.onDelete = .restrict →
      ¬ Dangles (kept ++ rest.map fun r => ⟨r.table,r.rows.filter (p r.table.name)⟩) fk row) :
    settle kept rest = .ok (kept ++ rest.map fun r => ⟨r.table,r.rows.filter (p r.table.name)⟩) := by
  induction rest generalizing kept with
  | nil => simp [settle]
  | cons r rest ih =>
    obtain ⟨hearlier,hord⟩ := hord
    -- What the first table refers to does not change any more.
    have hdangles : ∀ fk ∈ r.table.foreignKeys, ∀ row, Dangles (kept ++ (r :: rest).map fun r =>
        ⟨r.table,r.rows.filter (p r.table.name)⟩) fk row ↔ Dangles kept fk row := by
      intro fk hfk row
      obtain ⟨r',hr',hname⟩ := List.mem_map.mp (hearlier fk hfk)
      unfold Dangles
      rw [rows_append ⟨r',hr',hname⟩]
    have hjoin : kept ++ (r :: rest).map (fun r => (⟨r.table,r.rows.filter (p r.table.name)⟩ :
        Relation τ κ J)) = kept ++ [⟨r.table,r.rows.filter (p r.table.name)⟩] ++
        rest.map fun r => ⟨r.table,r.rows.filter (p r.table.name)⟩ := by simp
    rw [settle_cascade (p := p r.table.name)]
    · rw [hjoin] at hgone hkept ⊢
      refine ih ?_ (fun r hr => hgone r (List.mem_cons_of_mem _ hr))
        fun r hr => hkept r (List.mem_cons_of_mem _ hr)
      simpa using hord
    · intro row hrow hp
      obtain ⟨fk,hfk,hcascade,hd⟩ := hgone r List.mem_cons_self row hrow hp
      exact ⟨fk,hfk,hcascade,(hdangles fk hfk row).mp hd⟩
    · exact fun fk hfk row hrow hp hd =>
        hkept r List.mem_cons_self fk hfk row hrow (.inl hp) ((hdangles fk hfk row).mpr hd)
    · exact fun fk hfk hr row hrow hd =>
        hkept r List.mem_cons_self fk hfk row hrow (.inr hr) ((hdangles fk hfk row).mpr hd)

theorem settle_sound (hord : Ordered [] (g.map Relation.table)) (hs : g.Sound) :
    settle [] g = .ok g := by
  have hsame : (g.map fun r => (⟨r.table,r.rows.filter fun _ => true⟩ : Relation τ κ J)) = g := by
    simp
  have hend : settle [] g = .ok ([] ++ g.map fun r =>
      (⟨r.table,r.rows.filter fun _ => true⟩ : Relation τ κ J)) := by
    refine settle_filter (fun _ _ => true) hord (fun _ _ _ _ hp => ?_) fun r hr fk hfk row hrow _ => ?_
    · cases hp
    · rw [List.nil_append,hsame]
      exact (hs r hr).2.2 fk hfk row hrow
  rwa [List.nil_append,hsame] at hend

omit [DecidableEq κ] [DecidableEq J] in
theorem map_table_modify (f : List (Row κ J) → List (Row κ J)) :
    (g.modify name f).map Relation.table = g.map Relation.table := by
  rw [Database.modify,List.map_map]
  refine List.map_congr_left fun r _ => ?_
  simp only [Function.comp]
  split <;> rfl

omit [DecidableEq κ] [DecidableEq J] in
theorem relation_modify (hr : g.relation name = some r) (f : List (Row κ J) → List (Row κ J)) :
    (g.modify name f).relation name = some ⟨r.table,f r.rows⟩ := by
  have hsame : ∀ r : Relation τ κ J,
      (if r.table.name = name then { r with rows := f r.rows } else r).table = r.table := by
    intro r
    split <;> rfl
  have hname : r.table.name = name := by simpa using List.find?_some hr
  unfold Database.relation Database.modify at *
  rw [List.find?_map]
  simp only [Function.comp_def,hsame,hr,Option.map_some,hname,if_true]

omit [DecidableEq κ] [DecidableEq J] in
theorem modify_congr {f f' : List (Row κ J) → List (Row κ J)}
    (hn : (g.map fun r => r.table.name).Nodup) (hr : g.relation name = some r)
    (h : f r.rows = f' r.rows) : g.modify name f = g.modify name f' := by
  have hname : r.table.name = name := by simpa using List.find?_some hr
  refine List.map_congr_left fun r' hr' => ?_
  by_cases hr'name : r'.table.name = name
  · have he : r' = r := List.inj_on_of_nodup_map hn hr' (List.mem_of_find?_eq_some hr)
      (hr'name.trans hname.symm)
    rw [if_pos hr'name,if_pos hr'name,he,h]
  · rw [if_neg hr'name,if_neg hr'name]

omit [DecidableEq κ] [DecidableEq J] in
theorem rows_modify_other {other : τ} (h : other ≠ name) (f : List (Row κ J) → List (Row κ J)) :
    (g.modify name f).rows other = g.rows other := by
  have hsame : ∀ r : Relation τ κ J,
      (if r.table.name = name then { r with rows := f r.rows } else r).table = r.table := by
    intro r
    split <;> rfl
  unfold Database.rows Database.relation Database.modify
  rw [List.find?_map]
  simp only [Function.comp_def,hsame]
  cases hr : g.find? fun r => r.table.name = other with
  | none => rfl
  | some r =>
    have hname : r.table.name = other := by simpa using List.find?_some hr
    simp only [Option.map_some,hname,h,if_false]

omit [DecidableEq κ] [DecidableEq J] in
theorem sound_delete (hs : g.Sound)
    (hfree : ∀ r ∈ g, ∀ fk ∈ r.table.foreignKeys, fk.target ≠ name) (p : Row κ J → Bool) :
    (g.modify name fun rows => rows.filter p).Sound := by
  intro r' hr'
  obtain ⟨r,hr,rfl⟩ := List.mem_map.mp hr'
  obtain ⟨hcells,hkeys,hrefs⟩ := hs r hr
  have hdangles : ∀ fk ∈ r.table.foreignKeys, ∀ row ∈ r.rows,
      ¬ Dangles (g.modify name fun rows => rows.filter p) fk row := by
    intro fk hfk row hrow
    unfold Dangles
    rw [rows_modify_other (hfree r hr fk hfk)]
    exact hrefs fk hfk row hrow
  split
  · exact ⟨fun row hrow => hcells row (List.mem_of_mem_filter hrow),
      fun key hkey => (hkeys key hkey).filter _,
      fun fk hfk row hrow => hdangles fk hfk row (List.mem_of_mem_filter hrow)⟩
  · exact ⟨hcells,hkeys,hdangles⟩

theorem emit_delete (keys : List (κ × Datum J)) (hs : g.Sound)
    (hord : Ordered [] (g.map Relation.table)) (hr : g.relation name = some r)
    (hk : r.table.knows (keys.map Prod.fst) = true)
    (hfree : ∀ r ∈ g, ∀ fk ∈ r.table.foreignKeys, fk.target ≠ name) :
    (Statement.delete name keys).emit g =
      .ok (g.modify name fun rows => rows.filter fun row => ¬ row.agrees keys) := by
  have hs' := sound_delete hs hfree fun row => ¬ row.agrees keys
  have he := settle_sound (by rwa [map_table_modify]) hs'
  have hexec := exec_eq (.delete name keys) hr hk he
  rw [if_pos hs'] at hexec
  rw [Statement.emit,hexec]

theorem emitAll_delete {c : κ} (hs : g.Sound) (hord : Ordered [] (g.map Relation.table))
    (hr : g.relation name = some r) (hk : r.table.knows [c] = true)
    (hfree : ∀ r ∈ g, ∀ fk ∈ r.table.foreignKeys, fk.target ≠ name) (ks : List (Datum J)) :
    emitAll (ks.map fun k => .delete name [(c,k)]) g =
      .ok (g.modify name fun rows => rows.filter fun row => ∀ k ∈ ks, row c ≠ some k) := by
  induction ks generalizing g r with
  | nil =>
    refine congrArg Except.ok ((List.map_id g).symm.trans (List.map_congr_left fun r _ => ?_))
    split <;> simp
  | cons k ks ih =>
    rw [List.map_cons,emitAll,emit_delete [(c,k)] hs hord hr hk hfree]
    have hfree' : ∀ r' ∈ g.modify name fun rows => rows.filter fun row => ¬ row.agrees [(c,k)],
        ∀ fk ∈ r'.table.foreignKeys, fk.target ≠ name := by
      intro r' hr'
      obtain ⟨r,hr,rfl⟩ := List.mem_map.mp hr'
      split
      · exact hfree r hr
      · exact hfree r hr
    simp only [ih (sound_delete hs hfree _) (by rwa [map_table_modify]) (relation_modify hr _) hk
      hfree']
    refine congrArg Except.ok ?_
    simp only [Database.modify,List.map_map]
    refine List.map_congr_left fun r _ => ?_
    simp only [Function.comp]
    by_cases hname : r.table.name = name
    · simp only [hname,if_true,List.filter_filter]
      refine congrArg _ (List.filter_congr fun row _ => ?_)
      rw [Bool.eq_iff_iff]
      simp [Row.agrees,and_comm]
    · simp [hname]

end Deletions

end

end Relational
