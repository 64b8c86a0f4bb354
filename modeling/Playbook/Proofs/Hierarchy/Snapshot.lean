import Playbook.Hierarchy.Snapshot
import Playbook.Proofs.Checked
import Playbook.Proofs.Hierarchy.Operations
import Playbook.Proofs.Json.Record
import Playbook.Proofs.Json.Text
import Playbook.Proofs.Time

/-! # Snapshots read back

What is written of an entry, a thread or a hierarchy is read back as it was, first as a value and then as a
text. Only the limits of a hierarchy are not written, and numbers and times must be within the bounds of what
can be read.

Main statements: `Entry.ofJson?_toJson`, `Thread.ofJson?_toJson` and `Hierarchy.ofJson?_toJson` for values, and
`Hierarchy.parse?_compact` for texts.
-/

namespace Playbook

/-! ## Entries -/

namespace Entry

/-- The kind of an entry, which is written first, tells how the rest is read. -/
theorem ofJson?_ofFields {kind : String} {rest : List (String × Json)} (hkind : ∀ f ∈ rest, f.1 ≠ "kind") :
    Entry.ofJson? (Json.ofFields (("kind", .str kind) :: rest)) =
      Entry.read? kind (Json.ofFields (("kind", .str kind) :: rest)) := by
  have hlast : Fields.get? "kind" (rest.reverse ++ [("kind", Json.str kind)]) = some (.str kind) := by
    rw [Fields.get?_append_of_ne fun f hf => hkind f (List.mem_reverse.1 hf)]
    rfl
  have hlook : Fields.get? "kind" (Dict.ofList (("kind", Json.str kind) :: rest)).entries =
      some (.str kind) := by
    rw [← hlast, ← List.reverse_cons]
    exact Dict.get?_ofList _ "kind"
  simp only [Json.ofFields, Entry.ofJson?, hlook]
  rfl

/-- An entry is read back as it was written. -/
theorem ofJson?_toJson (entry : Entry) : Entry.ofJson? entry.toJson = some entry := by
  cases entry with
  | anchor child =>
    refine (ofJson?_ofFields (by simp)).trans ?_
    simp [Entry.read?, Json.record?_ofFields, Record.required, Fields.get?, Json.str?]
  | message role content tags =>
    have hrole : Json.taggedChoice? Role.ofName? (.str role.name) = some role := Role.ofName?_name role
    have htags : Json.listOf? Json.str? (.arr (tags.map .str)) = some tags :=
      Json.listOf?_map fun _ _ => rfl
    -- tags are written only if there are any
    cases tags with
    | nil =>
      refine (ofJson?_ofFields (by simp)).trans ?_
      simp [Entry.read?, Json.record?_ofFields, Record.required, Record.defaulted, Fields.get?, hrole,
        Json.str?]
    | cons tag tags =>
      refine (ofJson?_ofFields (by simp)).trans ?_
      simp only [Entry.read?, Json.record?_ofFields]
      simp [Record.required, Record.defaulted, Fields.get?, hrole, htags, Json.str?, -List.map_cons]

/-- The text of an entry can be read. -/
theorem readable_toJson (entry : Entry) (depth : Nat) : Json.Readable (depth + 2) entry.toJson := by
  cases entry with
  | anchor child =>
    refine .ofFields ?_
    simp only [List.forall_mem_cons]
    exact ⟨.str _ "anchor", .str _ child, by simp⟩
  | message role content tags =>
    have htags : Json.Readable (depth + 1) (.arr (tags.map .str)) := .map fun tag _ => .str depth tag
    refine .ofFields (List.forall_mem_append.2 ⟨?_, ?_⟩)
    · simp only [List.forall_mem_cons]
      exact ⟨.str _ "message", .str _ role.name, .str _ content, by simp⟩
    · split
      · simp
      · simpa using htags

end Entry

/-! ## Threads -/

@[simp] theorem ThreadStatus.ofName?_name (s : ThreadStatus) : ofName? s.name = some s := by
  cases s <;> rfl

/-- A time of the usual calendar is read back from its text. -/
theorem timeOf?_text {t : Time} (h : t.IsCommon) : timeOf? (.str t.text) = some t := by
  rw [timeOf?, Json.str?, Option.bind_some, Time.parse?_text h]

/-- A thread whose numbers fit into a word and whose times are read back. -/
structure Thread.Storable (t : Thread) : Prop where
  depth : t.depth < 2 ^ 64
  budget : t.budget < 2 ^ 64
  createdAt : t.createdAt.IsCommon
  completedAt : ∀ at_ ∈ t.completedAt, at_.IsCommon

/-- What a record answers that was written for a thread. -/
structure Thread.Answers (t : Thread) (r : Record) : Prop where
  id : r.look "id" = some (.str t.id)
  parent : r.look "parent_id" = some (Json.ofOption .str t.parent)
  depth : r.look "depth" = some (.int t.depth)
  windowRatio : r.look "window_ratio" = some (.double t.windowRatio)
  budget : r.look "budget" = some (.int t.budget)
  status : r.look "status" = some (.str t.status.name)
  chronicle : r.look "chronicle_summary" = some (Json.ofOption .str t.chronicle)
  label : r.look "label" = t.label.map .str
  createdAt : r.look "created_at" = some (.str t.createdAt.text)
  completedAt : r.look "completed_at" = some (Json.ofOption (fun at_ => .str at_.text) t.completedAt)
  entries : r.look "entries" = some (.arr (t.entries.map Entry.toJson))

namespace Thread

theorem record?_toJson (t : Thread) (names : List String) :
    ∃ r, t.toJson.record? names = some r ∧ t.Answers r := by
  rw [toJson, Json.record?_ofFields]
  refine ⟨_, rfl, ?_⟩
  -- a label is written only if there is one
  cases hlabel : t.label with
  | none => constructor <;> simp [Fields.get?, hlabel]
  | some label => constructor <;> simp [Fields.get?, hlabel]

/-- A thread is read back as it was written, if it has a place in a snapshot. -/
theorem ofJson?_toJson {t : Thread} (h : t.Storable) : Thread.ofJson? t.toJson = some t := by
  obtain ⟨r, hopen, hr⟩ := t.record?_toJson ["id", "parent_id", "depth", "window_ratio", "budget",
    "status", "chronicle_summary", "label", "created_at", "completed_at", "entries"]
  -- each field is read back, and then the record as a whole
  have hparent : Json.nullable Json.str? (Json.ofOption .str t.parent) = some t.parent :=
    Json.nullable_ofOption (fun _ => Json.noConfusion) fun _ _ => rfl
  have hchronicle : Json.nullable Json.str? (Json.ofOption .str t.chronicle) = some t.chronicle :=
    Json.nullable_ofOption (fun _ => Json.noConfusion) fun _ _ => rfl
  have hcompleted : Json.nullable timeOf? (Json.ofOption (fun at_ => .str at_.text) t.completedAt) =
      some t.completedAt :=
    Json.nullable_ofOption (fun _ => Json.noConfusion) fun at_ hat => timeOf?_text (h.completedAt at_ hat)
  have hstatus : Json.choice? ThreadStatus.ofName? (.str t.status.name) = some t.status :=
    ThreadStatus.ofName?_name t.status
  have hlabel : r.optional "label" Json.str? = some t.label :=
    Record.optional_of_look (fun _ => Json.noConfusion) (fun _ _ => rfl) hr.label
  have hentries : Json.listOf? Entry.ofJson? (.arr (t.entries.map Entry.toJson)) = some t.entries :=
    Json.listOf?_map fun entry _ => entry.ofJson?_toJson
  rw [ofJson?, hopen]
  simp only [Option.bind_eq_bind, Option.bind_some, Record.required_of_look hr.id,
    Record.required_of_look hr.depth, Record.required_of_look hr.windowRatio,
    Record.required_of_look hr.budget, Record.required_of_look hr.status,
    Record.required_of_look hr.createdAt, Record.optionalByName_of_look hr.parent,
    Record.optionalByName_of_look hr.chronicle, Record.optionalByName_of_look hr.completedAt,
    Record.defaulted_of_look hr.entries, hparent, hchronicle, hcompleted, hstatus, hentries, hlabel,
    timeOf?_text h.createdAt, Json.toWord?_int h.depth, Json.toWord?_int h.budget, Json.str?, Json.toDouble?]

/-- The text of a thread can be read, if that of its ratio can. -/
theorem readable_toJson {t : Thread} (h : t.Storable) (hratio : t.windowRatio.IsLegible) (depth : Nat) :
    Json.Readable (depth + 4) t.toJson := by
  have hentries : Json.Readable (depth + 3) (.arr (t.entries.map Entry.toJson)) :=
    .map fun entry _ => entry.readable_toJson depth
  have htext : ∀ o : Option String, Json.Readable (depth + 3) (Json.ofOption .str o) :=
    fun o => .ofOption fun text _ => .str _ text
  have hcompleted : Json.Readable (depth + 3) (Json.ofOption (fun at_ => .str at_.text) t.completedAt) :=
    .ofOption fun at_ _ => .str _ at_.text
  refine .ofFields (List.forall_mem_append.2 ⟨?_, ?_⟩)
  · simp only [List.forall_mem_cons]
    exact ⟨.str _ t.id, htext t.parent, .count h.depth, .double _ hratio, .count h.budget,
      .str _ t.status.name, htext t.chronicle, .str _ t.createdAt.text, hcompleted, hentries, by simp⟩
  · intro f hf
    rcases List.mem_map.1 hf with ⟨label, _, rfl⟩
    exact .str _ label

end Thread

/-! ### Changes of threads -/

namespace Thread.Storable

variable {t : Thread} {now : Time}

theorem primary (id : ThreadId) {budget : Nat} (hbudget : budget < 2 ^ 64) (hnow : now.IsCommon) :
    (Thread.primary id budget now).Storable where
  depth := Nat.two_pow_pos 64
  budget := hbudget
  createdAt := hnow
  completedAt := fun _ hat => nomatch hat

/-- The share of a window is a word again, and only the limit of nesting bounds the depth. -/
theorem nested (id : ThreadId) {parent : Thread} (hdepth : parent.depth + 1 < 2 ^ 64) (ratio : Double)
    (label : Option String) (hnow : now.IsCommon) :
    (Thread.nested id parent ratio label now).Storable where
  depth := hdepth
  budget := UInt64.toNat_lt _
  createdAt := hnow
  completedAt := fun _ hat => nomatch hat

/-- Any entry may be stored. -/
theorem push (h : t.Storable) (entry : Entry) : (t.push entry).Storable :=
  ⟨h.depth, h.budget, h.createdAt, h.completedAt⟩

/-- A thread that ends at a usual time may be stored. -/
theorem close (h : t.Storable) (status : ThreadStatus) (chronicle : Option String)
    (hnow : now.IsCommon) : (t.close status chronicle now).Storable where
  depth := h.depth
  budget := h.budget
  createdAt := h.createdAt
  completedAt := by
    intro at_ hat
    cases hat
    exact hnow

end Thread.Storable

/-! ## Hierarchies -/

namespace Hierarchy

/-- A hierarchy of this agent and with these limits, all of whose threads can be stored. -/
structure Filed (agent : String) (limits : Limits) (h : Hierarchy) : Prop where
  agent : h.agent = agent
  limits : h.limits = limits
  threads : ∀ id t, h.get? id = some t → t.Storable

/-- The hierarchy is read back from its snapshot when its limits are set again. -/
theorem ofJson?_toJson {agent : String} {limits : Limits} {h : Hierarchy} (hf : h.Filed agent limits) :
    (Hierarchy.ofJson? h.toJson).map (fun h => { h with limits }) = some h := by
  have hthreads : Json.dictOf? Thread.ofJson? (.ofDict (h.threads.mapValues Thread.toJson)) =
      some h.threads :=
    Json.dictOf?_mapValues fun id t ht => Thread.ofJson?_toJson (hf.threads id t ht)
  have hread : Hierarchy.ofJson? h.toJson = some { h with limits := .default } := by
    rw [toJson, ofJson?, Json.record?_ofFields]
    simp [Record.required, Fields.get?, Json.str?, hthreads]
  rw [hread, Option.map_some, ← hf.limits]

/-- The text of each ratio of a window is read as this ratio. -/
def IsLegible (h : Hierarchy) : Prop := ∀ t ∈ h.threads.values, t.windowRatio.IsLegible

/-- The text of a hierarchy can be read, if those of its ratios can. -/
theorem readable_toJson {agent : String} {limits : Limits} {h : Hierarchy} (hf : h.Filed agent limits)
    (hl : h.IsLegible) (depth : Nat) : Json.Readable (depth + 6) h.toJson := by
  have hthreads : Json.Readable (depth + 5) (.ofDict (h.threads.mapValues Thread.toJson)) :=
    .mapValues fun id t ht =>
      Thread.readable_toJson (hf.threads id t ht) (hl t (Dict.mem_values_iff.2 ⟨id, ht⟩)) depth
  refine .ofFields ?_
  simp only [List.forall_mem_cons]
  exact ⟨.str _ h.agent, .str _ h.root, .str _ h.active, hthreads, by simp⟩

/-- Snapshots do not nest too deeply for the reader of texts. -/
theorem parse?_compact {agent : String} {limits : Limits} {h : Hierarchy} (hf : h.Filed agent limits)
    (hl : h.IsLegible) : Json.parse? h.toJson.compact = some h.toJson :=
  (readable_toJson hf hl (Json.nestingLimit - 6)).parse?_compact

/-! ### Changes of hierarchies -/

theorem get?_of_require {h : Hierarchy} {id : ThreadId} {t : Thread} (hr : h.require id = .ok t) :
    h.get? id = some t := by
  rw [require] at hr
  split at hr
  · cases hr
    assumption
  · cases hr

namespace Filed

variable {agent : String} {limits : Limits} {h h' : Hierarchy} {now : Time}

/-- A new hierarchy has its place in an archive. -/
theorem new (agent : String) (root : ThreadId) {budget : Nat} (hbudget : budget < 2 ^ 64)
    (limits : Limits) (hnow : now.IsCommon) :
    (Hierarchy.new agent root budget limits now).Filed agent limits where
  agent := rfl
  limits := rfl
  threads := by
    intro id t ht
    rw [get?, Hierarchy.new, Dict.get?_insert] at ht
    split at ht
    · cases ht
      exact .primary root hbudget hnow
    · cases ht

/-- A thread is added or replaced by one that can be stored. -/
theorem insert (hf : h.Filed agent limits) {t : Thread} (ht : t.Storable) (id active : ThreadId) :
    ({ h with active, threads := h.threads.insert id t } : Hierarchy).Filed agent limits where
  agent := hf.agent
  limits := hf.limits
  threads := by
    intro other u hu
    rw [get?, Dict.get?_insert] at hu
    split at hu
    · cases hu
      exact ht
    · exact hf.threads other u hu

/-- A message more leaves a hierarchy its place in an archive. -/
theorem recordIn (hf : h.Filed agent limits) {id : ThreadId} {role : Role} {content : String}
    {tags : List String} (hr : h.recordIn id role content tags = .ok h') : h'.Filed agent limits := by
  rcases Checked.bind_eq_ok.1 hr with ⟨t, ht, hok⟩
  cases hok
  have hstored : t.Storable := hf.threads id t (get?_of_require ht)
  exact hf.insert (hstored.push _) id h.active

/-- A session that is entered leaves a hierarchy its place, if its depth has 64 bits. -/
theorem enter (hlimits : limits.maxDepth < 2 ^ 64) (hnow : now.IsCommon) (hf : h.Filed agent limits)
    {id : ThreadId} {ratio : Option Double} {label : Option String}
    (he : h.enter id ratio label now = .ok h') : h'.Filed agent limits := by
  rcases Checked.bind_eq_ok.1 he with ⟨parent, hparent, hrest⟩
  rcases Checked.bind_eq_ok.1 hrest with ⟨owner, howner, hok⟩
  rcases Checked.bind_eq_ok.1 hparent with ⟨t, _, hguard⟩
  -- the parent is above the limit of nesting, so its child is not below it
  split at hguard
  · cases hguard
  rename_i hdepth
  cases hguard
  cases hok
  rw [hf.limits] at hdepth
  have hchild : parent.depth + 1 < 2 ^ 64 := by omega
  have howned : owner.Storable := hf.threads parent.id owner (get?_of_require howner)
  have hanchored := hf.insert (howned.push (.anchor id)) parent.id h.active
  exact hanchored.insert (.nested id hchild _ label hnow) id id

/-- A session that is left leaves a hierarchy its place. -/
theorem leave (hnow : now.IsCommon) (hf : h.Filed agent limits) {id : ThreadId}
    {chronicle : Option String} (hl : h.leave id chronicle now = .ok h') : h'.Filed agent limits := by
  rw [Hierarchy.leave] at hl
  split at hl
  · cases hl
  rcases Checked.bind_eq_ok.1 hl with ⟨t, ht, hclosed⟩
  split at hclosed
  · cases hclosed
  · cases hclosed
    have hstored : t.Storable := hf.threads id t (get?_of_require ht)
    exact hf.insert (hstored.close .completed chronicle hnow) id _

/-- Sessions that are aborted leave a hierarchy its place. -/
theorem abort (hnow : now.IsCommon) (hf : h.Filed agent limits) {id : ThreadId} {ids : List ThreadId}
    (ha : h.abort id now = .ok (h', ids)) : h'.Filed agent limits := by
  rcases Checked.bind_eq_ok.1 ha with ⟨t, _, hclosed⟩
  split at hclosed
  · cases hclosed
  cases hclosed
  refine ⟨hf.agent, hf.limits, ?_⟩
  intro other u hu
  rw [get?, get?_closeAborted] at hu
  rcases Option.map_eq_some_iff.1 hu with ⟨v, hv, rfl⟩
  have hstored : v.Storable := hf.threads other v hv
  split
  · exact hstored.close .aborted none hnow
  · exact hstored

/-- The failure of a run leaves a hierarchy its place. -/
theorem abortRun (hnow : now.IsCommon) (hf : h.Filed agent limits) {mark : ThreadId}
    {ids : List ThreadId} (ha : h.abortRun mark now = .ok (h', ids)) : h'.Filed agent limits := by
  rcases abortRun_cases ha with ⟨rfl, _⟩ | ⟨id, hid⟩
  · exact hf
  · exact hf.abort hnow hid

end Filed

end Hierarchy

end Playbook
