import Playbook.Proofs.Hierarchy.Confined

/-! # Views of readers

What a reader sees depends on the entries of the threads on its path and on how the sessions that are
anchored there look: a session on the path is only a pointer, any other one shows its status, its chronicle
and its latest messages.

Main statements: `shown_congr` says when two readers see the same, `Pushed.shown_pathTo` what one more entry
adds to views, `view_appends_of_reachable` that the view of a thread has got one message longer when a session
under it is over, and `view_eq_of_reachable` that views show nothing else of other sessions.
-/

namespace Playbook

/-- Two threads of one name whose anchors look the same to readers outside of them. -/
structure Thread.LooksLike (recent : Nat) (t t' : Thread) : Prop where
  label : t'.label = t.label
  status : t'.status = t.status
  chronicle : t'.chronicle = t.chronicle
  messages : Hierarchy.lastItems recent t'.messages = Hierarchy.lastItems recent t.messages

namespace Thread

instance (recent : Nat) (t t' : Thread) : Decidable (t.LooksLike recent t') :=
  decidable_of_iff (t'.label = t.label ∧ t'.status = t.status ∧ t'.chronicle = t.chronicle ∧
      Hierarchy.lastItems recent t'.messages = Hierarchy.lastItems recent t.messages)
    ⟨fun ⟨hl, hs, hc, hm⟩ => ⟨hl, hs, hc, hm⟩, fun hl => ⟨hl.label, hl.status, hl.chronicle, hl.messages⟩⟩

theorem LooksLike.refl (recent : Nat) (t : Thread) : t.LooksLike recent t := ⟨rfl, rfl, rfl, rfl⟩

/-- What is no message does not show on the anchor of the thread that has got it. -/
theorem LooksLike.push (recent : Nat) (t : Thread) {e : Entry} (he : e.message? = none) :
    t.LooksLike recent (t.push e) where
  label := rfl
  status := rfl
  chronicle := rfl
  messages := by rw [messages_push, he, Option.toList_none, List.append_nil]

theorem title_eq {t t' : Thread} (hid : t'.id = t.id) (hlabel : t'.label = t.label) :
    t'.title = t.title := by
  simp only [title, hid, hlabel]

end Thread

namespace Hierarchy

variable {h h' : Hierarchy} {r r' c : ThreadId} {t t' : Thread}

/-! ## Anchors -/

/-- The anchor of a session begins with its title and how it stands, and holds its chronicle and each of its latest
messages. -/
theorem renderClosed_holds (recent : Nat) (t : Thread) :
    ("[" ++ t.title ++ statusText t.status).toList <+: (renderClosed recent t).toList ∧
    (∀ c, t.chronicle = some c → ("\nChronicle: " ++ c).toList <:+: (renderClosed recent t).toList) ∧
    ∀ m ∈ lastItems recent t.messages,
      ("\n- " ++ m.role.name ++ ": " ++ m.content).toList <:+: (renderClosed recent t).toList := by
  simp only [renderClosed, String.toList_append]
  refine ⟨⟨_, (List.append_assoc ..).symm⟩, fun c hc => ?_, fun m hm => ?_⟩
  · rw [hc, Option.map_some, Option.getD_some, String.toList_append]
    exact List.infix_append _ _ _
  · have hsome : (lastItems recent t.messages).isEmpty = false := by
      simpa using List.ne_nil_of_mem hm
    rw [hsome, if_neg Bool.false_ne_true, String.toList_append, String.toList_join]
    -- the exchanges stand at the end of the anchor, and the message among them
    refine List.IsInfix.trans ?_ ((List.suffix_append _ _).trans (List.suffix_append _ _)).isInfix
    refine List.infix_of_mem_flatten (List.mem_map.2 ⟨_, List.mem_map_of_mem hm, ?_⟩)
    simp only [String.toList_append]

theorem renderClosed_eq {recent : Nat} (hid : t'.id = t.id) (hl : t.LooksLike recent t') :
    renderClosed recent t' = renderClosed recent t := by
  simp only [renderClosed, Thread.title_eq hid hl.label, hl.status, hl.chronicle, hl.messages]

/-- From inside a session its anchor shows nothing but its title. -/
theorem renderAnchor_inside (hg : h.get? c = some t) (hin : c ∈ h.lineage r) :
    h.renderAnchor c r = "[" ++ t.title ++ ": current session]" := by
  rw [renderAnchor, hg]
  exact if_pos (isWithin_iff.2 hin)

theorem renderAnchor_outside (hg : h.get? c = some t) (hout : c ∉ h.lineage r) :
    h.renderAnchor c r = renderClosed h.limits.anchorRecent t := by
  rw [renderAnchor, hg]
  exact if_neg fun hin => hout (isWithin_iff.1 hin)

/-- An anchor looks the same to two readers that are both inside the session or both outside of it. -/
theorem renderAnchor_congr (hlimits : h'.limits = h.limits) (hg : h.get? c = some t)
    (hg' : h'.get? c = some t') (hside : c ∈ h'.lineage r' ↔ c ∈ h.lineage r)
    (hinside : c ∈ h.lineage r → t'.title = t.title)
    (houtside : c ∉ h.lineage r → t'.id = t.id ∧ t.LooksLike h.limits.anchorRecent t') :
    h'.renderAnchor c r' = h.renderAnchor c r := by
  by_cases hin : c ∈ h.lineage r
  · rw [renderAnchor_inside hg' (hside.2 hin), renderAnchor_inside hg hin, hinside hin]
  · obtain ⟨hid, hl⟩ := houtside hin
    rw [renderAnchor_outside hg' fun hin' => hin (hside.1 hin'), renderAnchor_outside hg hin, hlimits,
      renderClosed_eq hid hl]

/-! ## Entries -/

/-- What a reader sees of some threads. -/
def shown (h : Hierarchy) (reader : ThreadId) (threads : List Thread) : List Message :=
  threads.flatMap (fun t => t.entries.map (h.viewEntry reader))

theorem historyView_eq_shown (h : Hierarchy) (reader : ThreadId) :
    h.historyView reader = h.shown reader (h.pathTo reader) := rfl

theorem shown_append (h : Hierarchy) (reader : ThreadId) (before after : List Thread) :
    h.shown reader (before ++ after) = h.shown reader before ++ h.shown reader after :=
  List.flatMap_append

theorem shown_push (h : Hierarchy) (reader : ThreadId) (before : List Thread) (t : Thread) (e : Entry) :
    h.shown reader (before ++ [t.push e]) =
      h.shown reader (before ++ [t]) ++ [h.viewEntry reader e] := by
  simp [shown, Thread.push]

/-- Two readers see the same of two lists of threads if the entries are the same and every anchor in them
looks the same to both. -/
theorem shown_congr {threads threads' : List Thread}
    (hentries : threads'.map (·.entries) = threads.map (·.entries))
    (hanchors : ∀ t ∈ threads, ∀ c ∈ t.anchors, h'.renderAnchor c r' = h.renderAnchor c r) :
    h'.shown r' threads' = h.shown r threads := by
  -- what is shown depends on the threads only through their entries
  have hflat : ∀ (k : Hierarchy) (x : ThreadId) (ts : List Thread),
      k.shown x ts = (ts.map (·.entries)).flatMap (List.map (k.viewEntry x)) := by
    intro k x ts
    rw [List.flatMap_map]
    rfl
  rw [hflat, hflat, hentries, List.flatMap_map, List.flatMap_map]
  refine List.flatMap_congr ?_
  intro t ht
  refine List.map_congr_left ?_
  intro e he
  cases e with
  | message role content tags => rfl
  | anchor c =>
    have hc : c ∈ t.anchors := List.mem_filterMap.2 ⟨_, he, rfl⟩
    rw [viewEntry, viewEntry, hanchors t ht c hc]

/-! ## Paths -/

namespace IsTree

/-- A path is its lineage, looked up. -/
theorem pathTo_eq_filterMap (ht : IsTree h) (id : ThreadId) :
    h.pathTo id = (h.lineage id).filterMap h.get? := by
  rw [lineage, List.filterMap_map]
  refine Eq.trans (List.filterMap_some).symm (List.filterMap_congr ?_)
  intro t hmem
  exact (ht.get?_of_mem_pathTo hmem).symm

/-- The path to an ancestor is the beginning of a path. -/
theorem pathTo_isPrefix (ht : IsTree h) {id x : ThreadId} (hx : x ∈ h.lineage id) :
    h.pathTo x <+: h.pathTo id := by
  rw [ht.pathTo_eq_filterMap x, ht.pathTo_eq_filterMap id]
  exact (ht.lineage_isPrefix hx).filterMap _

end IsTree

/-! ## One more entry -/

/-- The threads that were there are as they were, but for an entry that one of them has got. -/
structure Pushed (p : ThreadId) (e : Entry) (h h' : Hierarchy) : Prop where
  grows : Grows h h'
  kept : ∀ {id t}, h.get? id = some t → h'.get? id = some (if id = p then t.push e else t)

namespace Pushed

variable {p : ThreadId} {e : Entry}

/-- The path to the thread that has got the entry. -/
theorem pathTo_eq (hp : Pushed p e h h') (ht : IsTree h) (ht' : IsTree h') (hg : h.get? p = some t) :
    ∃ before, h.pathTo p = before ++ [t] ∧ h'.pathTo p = before ++ [t.push e] := by
  obtain ⟨before, hbefore, hne⟩ := OpenPath.pathTo_eq_concat ht hg
  refine ⟨before, hbefore, ?_⟩
  have hline : h'.lineage p = h.lineage p := hp.grows.lineage_eq ht ht' (by simp [hg])
  have hkept : ∀ x ∈ before, h'.get? x.id = some x := by
    intro x hx
    have hold : h.get? x.id = some x :=
      ht.get?_of_mem_pathTo (hbefore ▸ List.mem_append_left _ hx)
    rw [hp.kept hold, if_neg (hne x hx)]
  rw [ht'.pathTo_eq_filterMap, hline, lineage, hbefore, List.filterMap_map, List.filterMap_append]
  congr 1
  · exact (List.filterMap_congr hkept).trans List.filterMap_some
  · have hlast : h'.get? t.id = some (t.push e) := by
      rw [ht.id_eq hg, hp.kept hg, if_pos rfl]
    simp [hlast]

/-- What a reader sees of the path to the thread that has got the entry: what there was to see from that
thread, and the entry. -/
theorem shown_pathTo (hp : Pushed p e h h') (hw : WellFormed h) (ht' : IsTree h') (hne : h.get? p ≠ none)
    (hside : ∀ {id}, h.get? id ≠ none → (id ∈ h'.lineage r ↔ id ∈ h.lineage p)) :
    h'.shown r (h'.pathTo p) = h.historyView p ++ [h'.viewEntry r e] := by
  have ht : IsTree h := hw.toIsTree
  obtain ⟨t, hg⟩ := Option.ne_none_iff_exists'.1 hne
  obtain ⟨before, hbefore, hafter⟩ := hp.pathTo_eq ht ht' hg
  rw [hafter, shown_push, ← hbefore, historyView_eq_shown]
  congr 1
  refine shown_congr rfl ?_
  intro x hx c hc
  obtain ⟨u, hu, _⟩ := parent?_eq_some.1 ((hw.mem_anchors (ht.get?_of_mem_pathTo hx)).1 hc)
  refine renderAnchor_congr hp.grows.limits hu (hp.kept hu) (hside (by simp [hu])) ?_ ?_
  · intro _
    split <;> rfl
  · -- a session beside the path is not the thread that has got the entry
    intro hout
    have hcp : c ≠ p := by
      rintro rfl
      exact hout (ht.self_mem_lineage hu)
    rw [if_neg hcp]
    exact ⟨rfl, .refl _ u⟩

end Pushed

theorem OpenPath.recordIn_pushed (ho : OpenPath h) {id : ThreadId} {role : Role} {content : String}
    {tags : List String} (hr : h.recordIn id role content tags = .ok h') :
    Pushed id (.message role content tags) h h' where
  grows := (ho.recordIn hr).grows
  kept := by
    intro x t hg
    rw [(recordIn_maps hr).get?, hg]
    rfl

/-- What is recorded in the active thread is the last message of its view. -/
theorem WellFormed.record_view (hw : WellFormed h) {role : Role} {content : String} {tags : List String}
    (hr : h.record role content tags = .ok h') :
    h'.active = h.active ∧ h'.historyView h.active = h.historyView h.active ++ [⟨role, content⟩] := by
  have hsteady : Steady h h' := hw.toOpenPath.recordIn hr
  refine ⟨(recordIn_maps hr).active, ?_⟩
  refine (hw.toOpenPath.recordIn_pushed hr).shown_pathTo hw hsteady.openPath.toIsTree
    hw.active_ne_none ?_
  intro id _
  rw [hsteady.places.lineage_eq hw.toIsTree]

/-! ## A session under a thread -/

/-- Since a session was entered the threads outside of it have got nothing but its anchor. -/
theorem Enters.pushed {mid : Hierarchy} (ho : OpenPath h) {p : Thread} {ratio : Double}
    {label : Option String} {now : Time} (hfresh : h.get? c = none)
    (he : Enters h mid c p (Thread.nested c p ratio label now)) (hc : Confined c mid h')
    (hgrows : Grows mid h') : Pushed h.active (.anchor c) h h' where
  grows := (he.grows hfresh).trans hgrows
  kept := by
    intro id t hg
    have hid : id ≠ c := by
      rintro rfl
      rw [hfresh] at hg
      cases hg
    have hmid : mid.get? id = some (if id = h.active then t.push (.anchor c) else t) := by
      rw [he.get?_old hid, hg]
      rfl
    -- the session is new, so no thread that was there lies beneath it
    have hout : c ∉ mid.lineage id := by
      rw [(he.grows hfresh).lineage_eq ho.toIsTree (ho.enter_isTree hfresh he) (by simp [hg])]
      intro hmem
      obtain ⟨u, hu⟩ := ho.get?_of_mem_lineage hmem
      rw [hfresh] at hu
      cases hu
    rw [hc.kept (by simp [hmid]) hout, hmid]

/-- To a reader inside of a session its old surroundings look as they did from the parent. -/
theorem mem_lineage_inside (ht : IsTree h) (ht' : IsTree h') (hgrows : Grows h h')
    (hfresh : h.get? c = none) {p : ThreadId} (hg' : h'.get? c = some t') (hp : t'.parent = some p)
    (hin : c ∈ h'.lineage r) (hne : h.get? p ≠ none) {id : ThreadId} (hid : h.get? id ≠ none) :
    id ∈ h'.lineage r ↔ id ∈ h.lineage p := by
  have hline : h'.lineage c = h.lineage p ++ [c] := by
    rw [ht'.lineage_child hg' hp, hgrows.lineage_eq ht ht' hne]
  have hprefix := ht'.lineage_isPrefix hin
  constructor
  · intro hmem
    obtain ⟨u, hu⟩ := ht'.get?_of_mem_lineage hmem
    rcases List.prefix_or_prefix_of_prefix (ht'.lineage_isPrefix hmem) hprefix with hle | hle
    · have hidc : id ∈ h'.lineage c := hle.subset (ht'.self_mem_lineage hu)
      rw [hline, List.mem_append, List.mem_singleton] at hidc
      refine hidc.resolve_right ?_
      rintro rfl
      exact hid hfresh
    · -- a thread that was there does not lie beneath the new session
      have hcid : c ∈ h'.lineage id := hle.subset (ht'.self_mem_lineage hg')
      rw [hgrows.lineage_eq ht ht' hid] at hcid
      obtain ⟨v, hv⟩ := ht.get?_of_mem_lineage hcid
      rw [hfresh] at hv
      cases hv
  · intro hmem
    refine hprefix.subset ?_
    rw [hline]
    exact List.mem_append_left _ hmem

namespace Numbered

variable {supply : Nat → ThreadId} {s : Numbered} {h₁ : Hierarchy} {moves : List Move} {k : Nat}

/-- The hierarchy after a session was entered and `k` calls more. -/
def during (supply : Nat → ThreadId) (s : Numbered) (h₁ : Hierarchy) (moves : List Move) (k : Nat) :
    Hierarchy :=
  along supply ⟨h₁, s.drawn + 1⟩ moves k

/-- A session is entered under the active thread, and calls follow up to the first after which that thread is
active again. Nothing is said outside the active thread. -/
structure Stay (supply : Nat → ThreadId) (s : Numbered) (h₁ : Hierarchy) (moves : List Move) : Prop where
  entered : ∃ ratio label now, s.hierarchy.enter (supply s.drawn) ratio label now = .ok h₁
  inActive : ∀ m ∈ moves, m.inActive = true
  away : ∀ k < moves.length, (during supply s h₁ moves k).active ≠ s.hierarchy.active
  back : (during supply s h₁ moves moves.length).active = s.hierarchy.active

namespace Stay

/-- At every moment of a stay the session is there under its parent, and outside of it nothing has changed but
that the parent has its anchor. Until the stay is over the session is open. -/
theorem during_spec (hinj : Function.Injective supply) (hs : Sound (s.names supply) s.hierarchy)
    (hstay : Stay supply s h₁ moves) (hk : k ≤ moves.length) {h : Hierarchy}
    (hh : during supply s h₁ moves k = h) : OpenPath h ∧
    Pushed s.hierarchy.active (.anchor (supply s.drawn)) s.hierarchy h ∧
    ∃ t t', h₁.get? (supply s.drawn) = some t ∧ h.get? (supply s.drawn) = some t' ∧
      t'.parent = some s.hierarchy.active ∧ t'.title = t.title ∧
      (k < moves.length → supply s.drawn ∈ h.lineage h.active) := by
  rcases hstay.entered with ⟨ratio, label, now, he⟩
  have ho : OpenPath s.hierarchy := hs.openPath
  have hfresh := hs.fresh (s.next_not_mem hinj)
  obtain ⟨p, hent⟩ := enter_ok ho.toIsTree ho.active_ne_none he
  have happly : s.apply supply (.enter ratio label now) = ⟨h₁, s.drawn + 1⟩ := by
    simp only [apply, Move.answer, he, Move.draws]
  have hs₁ : Sound (names supply ⟨h₁, s.drawn + 1⟩) h₁ := by
    have := (hs.apply hinj (.enter ratio label now)).1
    rwa [happly] at this
  have hparent : (Thread.nested (supply s.drawn) p (ratio.getD s.hierarchy.limits.defaultRatio) label
      now).parent = some s.hierarchy.active := congrArg some (ho.id_eq hent.parent)
  -- what is done in the visit stays beneath the new session
  obtain ⟨hconf, hopen⟩ := run_confined (s := ⟨h₁, s.drawn + 1⟩) hinj hs₁ hent.active hent.get?_new
    hparent hstay.inActive hstay.away hstay.back hk
  obtain ⟨ho', hgrows⟩ := along_sound (s := ⟨h₁, s.drawn + 1⟩) hinj hs₁ moves k
  subst hh
  obtain ⟨t', hg', hgrow⟩ := hgrows.thread hent.get?_new
  exact ⟨ho', hent.pushed ho hfresh hconf hgrows, _, t', hent.get?_new, hg', hgrow.parent.trans hparent,
    Thread.title_eq hgrow.id hgrow.label, hopen⟩

/-- During a stay the parent, and every reader inside of the session, see on the path to the parent what the
parent saw before, and the anchor of the session. -/
theorem shown_pathTo (hinj : Function.Injective supply) (hs : Sound (s.names supply) s.hierarchy)
    (hstay : Stay supply s h₁ moves) (hk : k ≤ moves.length) {h : Hierarchy}
    (hh : during supply s h₁ moves k = h)
    (hr : r = s.hierarchy.active ∨ supply s.drawn ∈ h.lineage r) :
    h.shown r (h.pathTo s.hierarchy.active) = s.hierarchy.historyView s.hierarchy.active ++
      [.system (h.renderAnchor (supply s.drawn) r)] := by
  obtain ⟨ho, hpushed, t, t', -, hg', hp', -⟩ := during_spec hinj hs hstay hk hh
  have hw := hs.wellFormed (names_nodup hinj s)
  refine hpushed.shown_pathTo hw ho.toIsTree hw.active_ne_none ?_
  intro id hid
  rcases hr with rfl | hin
  · rw [hpushed.grows.lineage_eq hw.toIsTree ho.toIsTree hw.active_ne_none]
  · exact mem_lineage_inside hw.toIsTree ho.toIsTree hpushed.grows
      (hs.fresh (s.next_not_mem hinj)) hg' hp' hin hw.active_ne_none hid

end Stay

end Numbered

/-- The view of the active thread only gets longer. What is said in it is its last message. A session that is
entered under it leaves one message, its anchor; and until the session is over, whatever happens in it, the
view of the thread that is active begins with that of the parent and a pointer to the session. -/
theorem view_appends_of_reachable {supply : Nat → ThreadId} (hinj : Function.Injective supply)
    {limits : Limits} {s : Numbered} (hr : Reachable supply limits s) :
    (∀ role content tags, ∃ h', s.hierarchy.record role content tags = .ok h' ∧
      h'.active = s.hierarchy.active ∧
      h'.historyView h'.active = s.hierarchy.historyView s.hierarchy.active ++ [⟨role, content⟩]) ∧
    ∀ h₁ moves, Numbered.Stay supply s h₁ moves →
      (∀ h, h = Numbered.during supply s h₁ moves moves.length →
        h.historyView s.hierarchy.active = s.hierarchy.historyView s.hierarchy.active ++
          [.system (h.renderAnchor (supply s.drawn) s.hierarchy.active)]) ∧
      ∃ t, h₁.get? (supply s.drawn) = some t ∧
        ∀ k < moves.length, ∀ h, h = Numbered.during supply s h₁ moves k →
          s.hierarchy.historyView s.hierarchy.active ++
            [.system ("[" ++ t.title ++ ": current session]")] <+: h.historyView h.active := by
  rcases hr.sound hinj with ⟨hs, -⟩
  have hw := hs.wellFormed (Numbered.names_nodup hinj s)
  refine ⟨?_, ?_⟩
  · intro role content tags
    obtain ⟨h', hrec⟩ := exists_recordIn hw.active_ne_none role content tags
    obtain ⟨hactive, hview⟩ := hw.record_view hrec
    exact ⟨h', hrec, hactive, by rw [hactive, hview]⟩
  · intro h₁ moves hstay
    refine ⟨?_, ?_⟩
    · intro h hh
      exact hstay.shown_pathTo hinj hs (Nat.le_refl _) hh.symm (Or.inl rfl)
    · obtain ⟨-, -, t, -, hg, -⟩ := hstay.during_spec hinj hs (Nat.zero_le _) rfl
      refine ⟨t, hg, ?_⟩
      intro k hk h hh
      obtain ⟨ho, -, u, t', hu, hg', hp', htitle, hopen⟩ :=
        hstay.during_spec hinj hs (Nat.le_of_lt hk) hh.symm
      rw [hg] at hu
      cases hu
      -- the parent is above the session, and the session above the active thread
      have hin := hopen hk
      obtain ⟨q, hq, _⟩ := ho.parent_mem hg' hp'
      have habove : s.hierarchy.active ∈ h.lineage h.active := by
        refine (ho.lineage_isPrefix hin).subset ?_
        rw [ho.lineage_child hg' hp']
        exact List.mem_append_left _ (ho.self_mem_lineage hq)
      obtain ⟨below, hbelow⟩ := ho.pathTo_isPrefix habove
      refine ⟨h.shown h.active below, ?_⟩
      rw [← htitle, ← renderAnchor_inside hg' hin,
        ← hstay.shown_pathTo hinj hs (Nat.le_of_lt hk) hh.symm (Or.inr hin), ← shown_append, hbelow,
        historyView_eq_shown]

/-- A message, and a session that was left. -/
def onceVisited : Numbered :=
  (Numbered.start unary "agent" 100 .default default).run unary
    [.record .user "hello" [], .enter none none default, .record .assistant "hi" [],
      .leave "n" (some "brief") default]

/-- The first state of another session. -/
def revisited : Hierarchy := (onceVisited.apply unary (.enter none (some "second") default)).hierarchy

/-- In the session another one is entered and left, and then everything above the parent is aborted. -/
def secondVisit : List Move :=
  [.record .user "again" [], .enter none none default, .record .assistant "deep" [],
    .leave "nnn" none default, .abortAbove "" default]

theorem view_of_secondVisit :
    Numbered.Stay unary onceVisited revisited secondVisit ∧
    (Numbered.during unary onceVisited revisited secondVisit 5).historyView "" =
      onceVisited.hierarchy.historyView "" ++
        [.system ((Numbered.during unary onceVisited revisited secondVisit 5).renderAnchor "nn" "")] := by
  have hstay : Numbered.Stay unary onceVisited revisited secondVisit :=
    { entered := ⟨none, some "second", default, by rfl⟩
      inActive := by decide
      away := by decide +kernel
      back := by decide +kernel }
  exact ⟨hstay, ((view_appends_of_reachable unary_injective
    ⟨"agent", 100, default, _, rfl⟩).2 revisited secondVisit hstay).1 _ rfl⟩

/-! ## Two hierarchies -/

/-- Two hierarchies show a reader the same path, and the same of every session that is anchored there but is
not on the path. -/
structure SameSight (recent : Nat) (reader : ThreadId) (h h' : Hierarchy) : Prop where
  path : (h'.pathTo reader).map (fun t => (t.id, t.label, t.entries)) =
    (h.pathTo reader).map (fun t => (t.id, t.label, t.entries))
  anchored : ∀ {t c u u'}, t ∈ h.pathTo reader → c ∈ t.anchors → c ∉ h.lineage reader →
    h.get? c = some u → h'.get? c = some u' → u.LooksLike recent u'

namespace SameSight

theorem historyView_eq (hw : WellFormed h) (hw' : WellFormed h') (hlimits : h'.limits = h.limits)
    (hsame : SameSight h.limits.anchorRecent r h h') : h'.historyView r = h.historyView r := by
  have hproj : ∀ {α : Type} (f : ThreadId × Option String × List Entry → α),
      (h'.pathTo r).map (fun t => f (t.id, t.label, t.entries)) =
        (h.pathTo r).map (fun t => f (t.id, t.label, t.entries)) := by
    intro α f
    have := congrArg (List.map f) hsame.path
    rwa [List.map_map, List.map_map] at this
  have hline : h'.lineage r = h.lineage r := hproj Prod.fst
  have htwin : ∀ {t}, t ∈ h.pathTo r →
      ∃ t' ∈ h'.pathTo r, t'.id = t.id ∧ t'.label = t.label ∧ t'.entries = t.entries := by
    intro t ht
    have hmem := List.mem_map_of_mem (f := fun t => (t.id, t.label, t.entries)) ht
    rw [← hsame.path] at hmem
    obtain ⟨t', ht', heq⟩ := List.mem_map.1 hmem
    simp only [Prod.mk.injEq] at heq
    exact ⟨t', ht', heq⟩
  refine shown_congr (hproj fun x => x.2.2) ?_
  intro t ht c hc
  obtain ⟨t', ht', -, -, hentries⟩ := htwin ht
  have hc' : c ∈ t'.anchors := by
    rw [Thread.anchors, hentries]
    exact hc
  obtain ⟨u, hu, _⟩ := parent?_eq_some.1 ((hw.mem_anchors (hw.get?_of_mem_pathTo ht)).1 hc)
  obtain ⟨u', hu', _⟩ := parent?_eq_some.1 ((hw'.mem_anchors (hw'.get?_of_mem_pathTo ht')).1 hc')
  refine renderAnchor_congr hlimits hu hu' (by rw [hline]) ?_ ?_
  · -- the session is on the path of both
    intro hin
    obtain ⟨v, hv, hid, hlabel, -⟩ := htwin ((hw.mem_pathTo_iff hu).2 hin)
    have hvu : h'.get? c = some v := by
      rw [← hw'.get?_of_mem_pathTo hv, hid, hw.id_eq hu]
    rw [hu'] at hvu
    cases hvu
    exact Thread.title_eq hid hlabel
  · intro hout
    exact ⟨(hw'.id_eq hu').trans (hw.id_eq hu).symm, hsame.anchored ht hc hout hu hu'⟩

/-- An entry beside the path of a reader is out of sight, unless it is a message in a session that is anchored
on the path. -/
theorem of_pushed {p : ThreadId} {e : Entry} (hp : Pushed p e h h') (hw : WellFormed h)
    (ht' : IsTree h') (hne : h.get? r ≠ none) (hout : p ∉ h.lineage r)
    (hquiet : e.message? = none ∨ ∀ t ∈ h.pathTo r, p ∉ t.anchors) (recent : Nat) :
    SameSight recent r h h' where
  path := by
    rw [ht'.pathTo_eq_filterMap, hp.grows.lineage_eq hw.toIsTree ht' hne, hw.pathTo_eq_filterMap]
    refine congrArg _ (List.filterMap_congr ?_)
    intro id hid
    obtain ⟨t, hg⟩ := hw.get?_of_mem_lineage hid
    have hne : id ≠ p := by
      rintro rfl
      exact hout hid
    rw [hp.kept hg, if_neg hne, hg]
  anchored := by
    intro t c u u' ht hc _ hu hu'
    rw [hp.kept hu] at hu'
    cases hu'
    split
    case isTrue heq =>
      -- the session is anchored on the path, so its new entry is no message
      refine .push recent u (hquiet.resolve_right ?_)
      intro hnone
      exact hnone t ht (heq ▸ hc)
    case isFalse => exact .refl recent u

end SameSight

namespace Numbered

variable {supply : Nat → ThreadId} {s : Numbered}

/-- A call beside the path of a reader is out of sight: an entry of a session, or a message in a thread that is
not anchored on the path. -/
theorem apply_historyView (hinj : Function.Injective supply) (hs : Sound (s.names supply) s.hierarchy)
    {m : Move} (hne : s.hierarchy.get? r ≠ none) {p : ThreadId} {e : Entry} (hout : p ∉ s.hierarchy.lineage r)
    (hquiet : e.message? = none ∨ ∀ t ∈ s.hierarchy.pathTo r, p ∉ t.anchors)
    (hpushed : ∀ h', m.answer s.hierarchy (supply s.drawn) = .ok h' → Pushed p e s.hierarchy h') :
    (s.apply supply m).hierarchy.historyView r = s.hierarchy.historyView r := by
  have hw := hs.wellFormed (names_nodup hinj s)
  obtain ⟨hnext, hgrows⟩ := hs.apply hinj m
  have hw' := hnext.wellFormed (names_nodup hinj _)
  cases ha : m.answer s.hierarchy (supply s.drawn) with
  | error cause =>
    have hsame : s.apply supply m = s := by simp only [apply, ha]
    rw [hsame]
  | ok h' =>
    have hsame : (s.apply supply m).hierarchy = h' := by simp only [apply, ha]
    refine SameSight.historyView_eq hw hw' hgrows.limits ?_
    rw [hsame] at hw' ⊢
    exact .of_pushed (hpushed h' ha) hw hw'.toIsTree hne hout hquiet _

end Numbered

/-- A view shows nothing of the sessions beside the path of its reader but the label, the status, the chronicle
and the latest messages of those that are anchored on the path. So a message in a thread that is not anchored
there cannot be seen, nor a session that is entered beside the path. The anchor of a thread on the path shows
nothing but its title. -/
theorem view_eq_of_reachable {supply : Nat → ThreadId} (hinj : Function.Injective supply) {limits : Limits}
    {s : Numbered} (hr : Reachable supply limits s) (r : ThreadId) :
    (∀ (supply' : Nat → ThreadId) (s' : Numbered), Function.Injective supply' →
      Reachable supply' limits s' → SameSight limits.anchorRecent r s.hierarchy s'.hierarchy →
      s'.hierarchy.historyView r = s.hierarchy.historyView r) ∧
    (s.hierarchy.get? r ≠ none →
      (∀ id role content tags, id ∉ s.hierarchy.lineage r →
        (∀ t ∈ s.hierarchy.pathTo r, id ∉ t.anchors) →
        (s.apply supply (.recordIn id role content tags)).hierarchy.historyView r =
          s.hierarchy.historyView r) ∧
      ∀ ratio label now, s.hierarchy.active ∉ s.hierarchy.lineage r →
        (s.apply supply (.enter ratio label now)).hierarchy.historyView r =
          s.hierarchy.historyView r) ∧
    ∀ (c : ThreadId) (t u : Thread), s.hierarchy.get? c = some t → c ∈ s.hierarchy.lineage r →
      u.id = t.id → u.label = t.label →
      s.hierarchy.renderAnchor c r = "[" ++ u.title ++ ": current session]" := by
  rcases hr.sound hinj with ⟨hs, hlimits⟩
  have hw := hs.wellFormed (Numbered.names_nodup hinj s)
  refine ⟨?_, ?_, ?_⟩
  · intro supply' s' hinj' hr' hsame
    rcases hr'.sound hinj' with ⟨hs', hlimits'⟩
    refine SameSight.historyView_eq hw (hs'.wellFormed (Numbered.names_nodup hinj' s'))
      (hlimits'.trans hlimits.symm) ?_
    rw [hlimits]
    exact hsame
  · intro hne
    refine ⟨?_, ?_⟩
    · intro id role content tags hout hanchors
      refine Numbered.apply_historyView (e := .message role content tags) hinj hs hne hout
        (Or.inr hanchors) ?_
      intro h' ha
      exact hw.toOpenPath.recordIn_pushed ha
    · intro ratio label now hout
      refine Numbered.apply_historyView (e := .anchor (supply s.drawn)) hinj hs hne hout (Or.inl rfl) ?_
      intro h' ha
      obtain ⟨p, hent⟩ := enter_ok hw.toIsTree hw.active_ne_none ha
      exact hent.pushed hw.toOpenPath (hs.fresh (s.next_not_mem hinj)) (.refl _ _) (.refl _)
  · intro c t u hg hin hid hlabel
    rw [renderAnchor_inside hg hin, Thread.title_eq hid hlabel]

/-- Four messages and one more in a session, a session beneath it, and a chronicle. -/
def talkative (first : String) : Numbered :=
  (Numbered.start unary "agent" 100 .default default).run unary
    [.enter none none default, .record .user first [], .record .user "a" [], .record .user "b" [],
      .enter none none default, .record .assistant first [], .abort "nn" default, .record .user "c" [],
      .record .user "d" [], .leave "n" (some "brief") default]

theorem view_eq_talkative :
    SameSight 4 "" (talkative "hello").hierarchy (talkative "good morning").hierarchy ∧
    (talkative "good morning").hierarchy.historyView "" =
      (talkative "hello").hierarchy.historyView "" := by
  have hanchored : ∀ t ∈ (talkative "hello").hierarchy.pathTo "", ∀ c ∈ t.anchors,
      ∀ u ∈ (talkative "hello").hierarchy.get? c, ∀ u' ∈ (talkative "good morning").hierarchy.get? c,
        u.LooksLike 4 u' := by
    decide +kernel
  have hsame : SameSight 4 "" (talkative "hello").hierarchy (talkative "good morning").hierarchy :=
    { path := by decide +kernel
      anchored := fun ht hc _ hu hu' => hanchored _ ht _ hc _ hu _ hu' }
  exact ⟨hsame, (view_eq_of_reachable unary_injective ⟨"agent", 100, default, _, rfl⟩ "").1 unary _
    unary_injective ⟨"agent", 100, default, _, rfl⟩ hsame⟩

end Hierarchy

end Playbook
