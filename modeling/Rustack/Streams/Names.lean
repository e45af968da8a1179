import Rustack.Streams.Provider

/-!
# Names of streams

The name of a stream is found under one table only, and the identifier of a shard is drawn once.
Snapshots keep both, so an iterator means the same shard wherever it is there at all.
-/

namespace Rustack.Streams

open List SortedMap

/-! ## What is known of a stream -/

/-- A stream as it was created, with identifiers drawn so far. -/
structure Known (env : Env) (created : ℕ) (stream : TableStream) : Prop where
  arn : ∃ (name : TableName) (label : StreamLabel), name.text = stream.tableName ∧
    stream.streamArn = streamArn env stream.tableName label.text
  shard : ∃ i < created, stream.shard.shardId = env.shardId i
  sound : stream.shard.Sound

def StoreKnown (env : Env) (created : ℕ) (store : StreamStore) : Prop :=
  ∀ table stream, store.get? table = some stream →
    stream.tableName = table ∧ Known env created stream

structure SnapshotKnown (env : Env) (created : ℕ) (snapshot : List TableStream) : Prop where
  tables : (snapshot.map TableStream.tableName).Nodup
  known : ∀ stream ∈ snapshot, Known env created stream

/-- The configured names have no bar. -/
structure Env.Plain (env : Env) : Prop where
  region : '|' ∉ env.region.toList
  accountId : '|' ∉ env.accountId.toList

variable {env : Env} {created created' : ℕ} {store : StreamStore}

theorem Known.mono {stream : TableStream} (h : Known env created stream)
    (hle : created ≤ created') : Known env created' stream := by
  obtain ⟨i, hi, hshard⟩ := h.shard
  exact ⟨h.arn, ⟨i, Nat.lt_of_lt_of_le hi hle, hshard⟩, h.sound⟩

theorem StoreKnown.mono (h : StoreKnown env created store) (hle : created ≤ created') :
    StoreKnown env created' store :=
  fun table stream hget => ⟨(h table stream hget).1, (h table stream hget).2.mono hle⟩

theorem SnapshotKnown.mono {snapshot : List TableStream} (h : SnapshotKnown env created snapshot)
    (hle : created ≤ created') : SnapshotKnown env created' snapshot :=
  ⟨h.tables, fun stream hmem => (h.known stream hmem).mono hle⟩

/-! ## Names -/

theorem TableName.not_mem (name : TableName) {c : Char} (h : c = '/' ∨ c = '|') :
    c ∉ name.text.toList := by
  have hslash : ¬('/'.isAlphanum = true ∨ '/' ∈ ['.', '_', '-']) := by decide
  have hbar : ¬('|'.isAlphanum = true ∨ '|' ∈ ['.', '_', '-']) := by decide
  intro hc
  rcases h with rfl | rfl
  · exact hslash (name.valid _ hc)
  · exact hbar (name.valid _ hc)

theorem StreamLabel.not_mem (label : StreamLabel) : '|' ∉ label.text.toList := by
  have hbar : ¬('|'.isDigit = true ∨ '|' ∈ ['-', ':', '.', 'T', '+']) := by decide
  intro hc
  exact hbar (label.valid '|' hc)

theorem streamArn_toList (env : Env) (tableName label : String) :
    (streamArn env tableName label).toList =
      ("arn:aws:dynamodb:" ++ env.region ++ ":" ++ env.accountId ++ ":table/").toList ++
        (tableName.toList ++ '/' :: ("stream/".toList ++ label.toList)) := by
  have hslash : "/stream/".toList = '/' :: "stream/".toList := by decide
  unfold streamArn
  simp only [String.toList_append, hslash, append_assoc, cons_append]

/-- The table of a stream can be read off its name. -/
theorem streamArn_inj {name name' : TableName} {label label' : String}
    (h : streamArn env name.text label = streamArn env name'.text label') :
    name.text = name'.text := by
  have hlist := congrArg String.toList h
  rw [streamArn_toList, streamArn_toList] at hlist
  have htail := append_cancel_left hlist
  rw [Text.field_inj (name.not_mem (Or.inl rfl)) (name'.not_mem (Or.inl rfl))] at htail
  exact String.toList_inj.mp htail.1

theorem Known.plain {stream : TableStream} (h : Known env created stream) (hplain : env.Plain) :
    '|' ∉ stream.streamArn.toList := by
  obtain ⟨name, label, hname, harn⟩ := h.arn
  rw [harn, ← hname, streamArn_toList]
  simp only [String.toList_append, mem_append, mem_cons, not_or]
  refine ⟨⟨⟨⟨⟨by decide, hplain.region⟩, by decide⟩, hplain.accountId⟩, by decide⟩, ?_⟩
  exact ⟨name.not_mem (Or.inr rfl), by decide, by decide, label.not_mem⟩

theorem Known.tableName_eq {stream stream' : TableStream} (h : Known env created stream)
    (h' : Known env created stream') (harn : stream.streamArn = stream'.streamArn) :
    stream.tableName = stream'.tableName := by
  obtain ⟨name, label, hname, hstream⟩ := h.arn
  obtain ⟨name', label', hname', hstream'⟩ := h'.arn
  rw [hstream, hstream', ← hname, ← hname'] at harn
  rw [← hname, ← hname']
  exact streamArn_inj harn

/-! ## Lookup by name -/

theorem getStreamByArn_iff (h : StoreKnown env created store) {arn : String}
    {stream : TableStream} :
    store.getStreamByArn arn = some stream ↔
      store.get? stream.tableName = some stream ∧ stream.streamArn = arn := by
  unfold StreamStore.getStreamByArn
  constructor
  · intro hget
    split at hget
    · cases hget
    · next entry hfind =>
      have hmem := mem_of_find?_eq_some hfind
      have harn := find?_some hfind
      simp only [beq_iff_eq] at harn
      have hentry := get?_of_mem store hmem
      rw [hget] at hentry
      rw [Option.some.inj hentry, (h _ _ (get?_of_mem store hmem)).1]
      exact ⟨get?_of_mem store hmem, harn⟩
  · rintro ⟨hget, harn⟩
    split
    · next hfind =>
      rw [find?_eq_none] at hfind
      have hmem := (mem_entries_iff store).mpr hget
      exact absurd (beq_iff_eq.mpr harn) (hfind _ hmem)
    · next entry hfind =>
      have hmem := mem_of_find?_eq_some hfind
      have harn' := find?_some hfind
      simp only [beq_iff_eq] at harn'
      have hentry := get?_of_mem store hmem
      have hknown := h _ _ hentry
      have htable := hknown.2.tableName_eq (h _ _ hget).2
        (harn'.trans harn.symm)
      rw [hknown.1] at htable
      rw [htable]
      exact hget

theorem StoreKnown.of_getStreamByArn (h : StoreKnown env created store) {arn : String}
    {stream : TableStream} (hget : store.getStreamByArn arn = some stream) :
    Known env created stream :=
  (h _ _ ((getStreamByArn_iff h).mp hget).1).2

/-! ## The operations -/

theorem storeKnown_empty : StoreKnown env created empty := by
  intro table stream h
  cases h

theorem StoreKnown.insert (h : StoreKnown env created store) {table : String}
    {stream : TableStream} (htable : stream.tableName = table) (hknown : Known env created stream) :
    StoreKnown env created (insert store table stream) := by
  intro probe found hget
  rw [get?_insert_eq] at hget
  split at hget
  · next heq =>
    cases hget
    exact ⟨htable.trans heq, hknown⟩
  · exact h probe found hget

theorem StoreKnown.createStream (h : StoreKnown env created store) (name : TableName)
    (tableArn : String) (keySchema : List KeySchemaElement) (viewType : StreamViewType)
    (label : StreamLabel) :
    StoreKnown env (created + 1) (store.createStream env name tableArn keySchema viewType label
      (env.shardId created)) := by
  refine (h.mono (Nat.le_succ created)).insert rfl ?_
  exact ⟨⟨name, label, rfl, rfl⟩, ⟨created, Nat.lt_succ_self created, rfl⟩,
    ShardRecord.new_sound _⟩

theorem StoreKnown.disableStream (h : StoreKnown env created store) (table : String) :
    StoreKnown env created (store.disableStream table) := by
  unfold StreamStore.disableStream
  split
  · next stream hget =>
    obtain ⟨htable, hknown⟩ := h table stream hget
    refine h.insert htable ⟨hknown.arn, ?_, hknown.sound.close⟩
    rw [ShardRecord.close_shardId]
    exact hknown.shard
  · exact h

theorem StoreKnown.removeStream (h : StoreKnown env created store) (table : String) :
    StoreKnown env created (store.removeStream table) := by
  intro probe stream hget
  unfold StreamStore.removeStream at hget
  rw [get?_erase_eq] at hget
  split at hget
  · cases hget
  · exact h probe stream hget

theorem StoreKnown.appendChangeEvent (h : StoreKnown env created store) {event : ChangeEvent}
    {region eventId : String} {now : ℤ} {store' : StreamStore}
    (happend : store.appendChangeEvent event region eventId now = some store') :
    StoreKnown env created store' := by
  unfold StreamStore.appendChangeEvent at happend
  split at happend
  · cases happend
    exact h
  · next stream hget =>
    split at happend
    · cases happend
      exact h
    · split at happend
      · cases happend
      · next shard hshard =>
        cases happend
        obtain ⟨htable, hknown⟩ := h _ _ hget
        refine h.insert htable ⟨hknown.arn, ?_, hknown.sound.append hshard⟩
        obtain ⟨-, hid, -⟩ := ShardRecord.append_eq_some hshard
        rw [hid]
        exact hknown.shard

theorem StoreKnown.exportSnapshot (h : StoreKnown env created store) :
    SnapshotKnown env created store.exportSnapshot := by
  have hget : ∀ entry ∈ store.entries, store.get? entry.1 = some entry.2 := fun entry hmem =>
    get?_of_mem store hmem
  constructor
  · have hnames : store.exportSnapshot.map TableStream.tableName = store.entries.map Prod.fst := by
      unfold StreamStore.exportSnapshot
      rw [map_map]
      apply map_congr_left
      intro entry hmem
      exact (h _ _ (hget entry hmem)).1
    rw [hnames]
    exact nodup_keys store
  · intro stream hmem
    obtain ⟨entry, hentry, rfl⟩ := mem_map.mp hmem
    exact (h _ _ (hget entry hentry)).2

/-- A snapshot holds the streams of a store. -/
theorem StoreKnown.mem_exportSnapshot (h : StoreKnown env created store) {table : String}
    {stream : TableStream} : store.get? table = some stream ↔
      stream ∈ store.exportSnapshot ∧ stream.tableName = table := by
  unfold StreamStore.exportSnapshot
  rw [mem_map]
  constructor
  · intro hget
    exact ⟨⟨(table, stream), (mem_entries_iff store).mpr hget, rfl⟩, (h _ _ hget).1⟩
  · rintro ⟨⟨entry, hentry, rfl⟩, rfl⟩
    have hget := get?_of_mem store hentry
    rw [(h _ _ hget).1]
    exact hget

theorem get?_foldl_insert {snapshot : List TableStream} {acc : StreamStore} {table : String}
    (hnodup : (snapshot.map TableStream.tableName).Nodup) {stream : TableStream} :
    (snapshot.foldl (fun store stream => insert store stream.tableName stream)
      acc).get? table = some stream ↔
      (stream ∈ snapshot ∧ stream.tableName = table) ∨
        (table ∉ snapshot.map TableStream.tableName ∧ acc.get? table = some stream) := by
  induction snapshot generalizing acc with
  | nil => simp
  | cons first rest ih =>
      rw [map_cons, nodup_cons] at hnodup
      rw [foldl_cons, ih hnodup.2, get?_insert_eq, map_cons, mem_cons,
        mem_cons, not_or]
      by_cases htable : first.tableName = table
      · subst htable
        rw [if_pos rfl]
        constructor
        · rintro (⟨hmem, hname⟩ | ⟨-, hsome⟩)
          · exact Or.inl ⟨Or.inr hmem, hname⟩
          · exact Or.inl ⟨Or.inl (Option.some.inj hsome).symm,
              congrArg TableStream.tableName (Option.some.inj hsome).symm⟩
        · rintro (⟨rfl | hmem, hname⟩ | ⟨⟨hne, -⟩, -⟩)
          · exact Or.inr ⟨hnodup.1, rfl⟩
          · exact absurd (mem_map.mpr ⟨stream, hmem, hname⟩) hnodup.1
          · exact absurd rfl hne
      · rw [if_neg htable]
        constructor
        · rintro (⟨hmem, hname⟩ | ⟨hnot, hacc⟩)
          · exact Or.inl ⟨Or.inr hmem, hname⟩
          · exact Or.inr ⟨⟨Ne.symm htable, hnot⟩, hacc⟩
        · rintro (⟨rfl | hmem, hname⟩ | ⟨⟨-, hnot⟩, hacc⟩)
          · exact absurd hname htable
          · exact Or.inl ⟨hmem, hname⟩
          · exact Or.inr ⟨hnot, hacc⟩

/-- A restored store holds the streams of the snapshot. -/
theorem get?_importSnapshot {snapshot : List TableStream} (h : SnapshotKnown env created snapshot)
    {table : String} {stream : TableStream} :
    (StreamStore.importSnapshot snapshot).get? table = some stream ↔
      stream ∈ snapshot ∧ stream.tableName = table := by
  unfold StreamStore.importSnapshot
  rw [get?_foldl_insert h.tables]
  constructor
  · rintro (hmem | ⟨-, hnone⟩)
    · exact hmem
    · cases hnone
  · exact Or.inl

theorem SnapshotKnown.importSnapshot {snapshot : List TableStream}
    (h : SnapshotKnown env created snapshot) :
    StoreKnown env created (.importSnapshot snapshot) := by
  intro table stream hget
  obtain ⟨hmem, hname⟩ := (get?_importSnapshot h).mp hget
  exact ⟨hname, h.known stream hmem⟩

end Rustack.Streams
