import Gamebook.Proofs.Game.Transaction
import Gamebook.Proofs.Play.Looking

/-!
# Bookmarks of actions

A verb may ask for a bookmark on the action that it is run for. At that time neither the entry of
the action in the queue nor its snapshot exists; the description waits on the stage, and each later
one takes its place (`Marks`, `Scripted.marks`). All that is known is the position that the entry
will have: it is the length of the queue, which nothing changes until the action is recorded.

When the action is recorded, the last description goes to this position, also if the action takes
the place of others that were undone (`Session.Reached.act_bookmarks`).
-/

namespace Gamebook

open Script

variable {σ α : Type}

/-! ### Asking for bookmarks -/

/-- The description of the bookmark that a deed asks for, if it asks for one. -/
def Deed.bookmark? : Deed → Option (Option String)
  | .call .bookmark _ _ => some none
  | .call .userBookmark args _ => some (some (" ".intercalate args.value.atoms))
  | _ => none

/-- The description of the bookmark that was asked for last. -/
def Deed.lastBookmark? (deeds : List Deed) : Option (Option String) :=
  (deeds.filterMap Deed.bookmark?).getLast?

theorem Deed.lastBookmark?_append (ds es : List Deed) :
    lastBookmark? (ds ++ es) = (lastBookmark? es).or (lastBookmark? ds) := by
  rw [lastBookmark?, List.filterMap_append, List.getLast?_append]
  rfl

/-- What a part of an action does about bookmarks: it answers each request with one position in the
queue, and the last request waits on the stage. -/
structure Marks (queue : Nat) (deeds : List Deed) (s t : Stage σ) : Prop where
  waiting : t.bookmark = (Deed.lastBookmark? deeds).or s.bookmark
  answers : ∀ f args answer, .call f args answer ∈ deeds → f = .bookmark ∨ f = .userBookmark →
    answer = .ofNat queue

namespace Marks

variable {queue : Nat} {ds es : List Deed} {s t u : Stage σ}

theorem nil (h : t.bookmark = s.bookmark) : Marks queue [] s t :=
  ⟨h, fun _ _ _ hmem => absurd hmem List.not_mem_nil⟩

theorem append (h : Marks queue ds s t) (h' : Marks queue es t u) :
    Marks queue (ds ++ es) s u where
  waiting := by
    rw [h'.waiting, h.waiting, Deed.lastBookmark?_append, Option.or_assoc]
  answers f args answer hmem hf := by
    rcases List.mem_append.mp hmem with hmem | hmem
    · exact h.answers f args answer hmem hf
    · exact h'.answers f args answer hmem hf

theorem change (noun : String) (c : Change) (v : Value) (h : t.bookmark = s.bookmark) :
    Marks queue [.change noun c v] s t :=
  ⟨h, fun _ _ _ hmem => nomatch List.mem_singleton.mp hmem⟩

theorem request {f : Function} {args : Operand} {description : Option String}
    (h : Deed.bookmark? (.call f args (.ofNat queue)) = some description) :
    Marks queue [.call f args (.ofNat queue)] s { s with bookmark := some description } where
  waiting := by
    rw [Deed.lastBookmark?, List.filterMap_cons_some h]
    rfl
  answers f' args' answer' hmem _ := by
    cases List.mem_singleton.mp hmem
    rfl

/-- All functions but two ask for no bookmark. -/
theorem other {f : Function} (hf : ¬ (f = .bookmark ∨ f = .userBookmark)) (args answer : Operand)
    (h : t.bookmark = s.bookmark) : Marks queue [.call f args answer] s t where
  waiting := by
    have hnone : Deed.bookmark? (.call f args answer) = none := by
      cases f with
      | bookmark => exact absurd (.inl rfl) hf
      | userBookmark => exact absurd (.inr rfl) hf
      | _ => rfl
    rw [Deed.lastBookmark?, List.filterMap_cons_none hnone]
    exact h
  answers f' args' answer' hmem hf' := by
    cases List.mem_singleton.mp hmem
    exact absurd hf' hf

end Marks

/-! ### Functions and runs -/

namespace Function

theorem bookmark_switchAssets (b : Book σ) (on : Bool) (assets : List String) (s : Stage σ) :
    ((switchAssets b on assets).run s).2.bookmark = s.bookmark := by
  induction assets generalizing s with
  | nil => rfl
  | cons asset assets ih =>
    refine (ih { s with
      session := s.session.setAsset asset on
      host := (if on then b.play asset else b.stop asset) s.host }).trans rfl

/-- While an action is under way, a bookmark has to wait. -/
theorem run_placeBookmark {s : Stage σ} (hpending : s.session.pending.isSome)
    (description : Option String) : (placeBookmark description).run s =
      (.ofNat s.session.history.queue.length, { s with bookmark := some description }) := by
  rw [placeBookmark, Run.run_bind, Run.run_session]
  dsimp only
  rw [if_pos hpending]
  rfl

/-- What the call of a function does about bookmarks while an action is under way. -/
theorem marks_call (b : Book σ) (noun : String) (f : Function) (args : Operand) {s : Stage σ}
    (hpending : s.session.pending.isSome) :
    Marks s.session.history.queue.length [.call f args ((f.call b noun args).run s).1] s
      ((f.call b noun args).run s).2 := by
  cases f with
  | bookmark =>
    change Marks _ [.call _ args ((placeBookmark none).run s).1] s ((placeBookmark none).run s).2
    rw [run_placeBookmark hpending]
    exact .request rfl
  | userBookmark =>
    change Marks _ [.call _ args ((placeBookmark _).run s).1] s ((placeBookmark _).run s).2
    rw [run_placeBookmark hpending]
    exact .request rfl
  | play => exact .other (by decide) _ _ (bookmark_switchAssets b true args.value.atoms s)
  | stop => exact .other (by decide) _ _ (bookmark_switchAssets b false args.value.atoms s)
  | print =>
    refine .other (by decide) _ _ ?_
    rw [call]
    dsimp only
    split <;> rfl
  | selectValue =>
    refine .other (by decide) _ _ ?_
    rw [call, Run.run_bind, Run.run_call]
    dsimp only
    split
    · rfl
    · split <;> rfl
  | input | loadSession =>
    refine .other (by decide) _ _ ?_
    rw [call, Run.run_bind, Run.run_call]
    dsimp only
    split <;> rfl
  | loadSnapshot =>
    refine .other (by decide) _ _ ?_
    rw [call, Run.run_bind, Run.run_session]
    dsimp only
    split <;> rfl
  | _ => exact .other (by decide) _ _ rfl

end Function

/-- A run that does not jump answers all requests with the length of the queue, and leaves the last
one waiting. -/
theorem Scripted.marks {g : Setting σ} {P : α → Prop} {m : Run σ α} {d : Deeds σ}
    (hm : Scripted g (fun _ => True) P m d) {s : Stage σ} (hpending : s.session.pending.isSome)
    (hstay : ∀ x ∈ d s, x.jumps = false) :
    Marks s.session.history.queue.length (d s) s (m.run s).2 := by
  induction hm generalizing s with
  | pure | report | print => exact .nil rfl
  | bind hm _ ihm ihf =>
    have hstays := fun x hx => hstay x (List.mem_append_left _ hx)
    have hfirst := ihm hpending hstays
    obtain ⟨hP, hleads⟩ := hm.leads Value.lasting_true g.gives_true (s := s) fun _ _ _ => trivial
    obtain ⟨name, values, assets, hsession⟩ := hleads.stays hpending hstays
    -- the length of the queue and the action under way are the same for the rest of the run
    have hrest := ihf _ hP (by rw [hsession]; exact hpending)
      fun x hx => hstay x (List.mem_append_right _ hx)
    rw [hsession] at hrest
    exact hfirst.append hrest
  | look noun _ _ ih =>
    obtain ⟨v, reports, hrun⟩ := onlyLooks_valueOf g noun s.session
    have hlook := hrun s rfl
    rw [Run.run_bind]
    simp only [Deeds.after, hlook] at hstay ⊢
    obtain ⟨hwaiting, hanswers⟩ :=
      ih v trivial (s := { s with diagnostics := s.diagnostics ++ reports }) hpending hstay
    exact ⟨hwaiting, hanswers⟩
  | change noun c => exact .change noun c _ rfl
  | call noun f => exact Function.marks_call g.book noun f _ hpending

/-! ### The recorded bookmark -/

namespace Session

variable {s t : Session} {entry : String}

/-- An action that does not jump leaves a consistent session to be recorded. -/
theorem Consistent.of_stayed (hc : s.Consistent) {noun verb : String}
    (ht : ∃ name values assets, t = { s.trim.setAction noun verb with name, values, assets }) :
    t.Consistent := by
  obtain ⟨name, values, assets, rfl⟩ := ht
  exact hc.trim.congr rfl rfl hc.trim.current_lt rfl

theorem Consistent.length_take_queue (hc : s.Consistent) :
    (s.history.queue.take s.current).length = s.current := by
  have hlt := hc.current_lt
  rw [hc.length_snapshots] at hlt
  rw [List.length_take]
  omega

/-- The entry of an action goes behind those of the actions that were not undone. -/
theorem Acted.getElem?_queue (h : s.Acted t entry) (hc : s.Consistent) :
    t.history.queue[s.current]? = some entry := by
  have hlength := hc.length_take_queue
  rw [h.queue_eq, List.getElem?_append_right (Nat.le_of_eq hlength), hlength, Nat.sub_self]
  rfl

/-- If there is a bookmark on an action, then it comes behind those on the actions before it. -/
theorem Acted.entries_bookmarks (h : s.Acted t entry) {text : String}
    (htext : t.bookmarks.get? s.current = some text) : t.bookmarks.entries =
      (s.bookmarks.entries.filter fun e => e.1 < s.current) ++ [(s.current, text)] := by
  have hinsert : t.bookmarks =
      (s.bookmarks.filterKeys fun queue => queue < s.current).insert s.current text := by
    refine SortedMap.ext_get? fun queue => ?_
    rw [SortedMap.get?_insert, ← h.bookmarks_eq, SortedMap.erase, SortedMap.get?_filterKeys]
    by_cases heq : s.current = queue
    · rw [if_pos heq, ← heq, htext]
    · rw [if_neg heq, if_pos (by simpa using Ne.symm heq)]
  rw [hinsert]
  exact SortedMap.insertEntry_of_lt fun e he => by simpa using (List.mem_filter.mp he).2

/-- The bookmark that is waiting when an action is recorded is put on its entry. -/
theorem Consistent.get?_record (hc : s.Consistent) (noun verb : String)
    (ht : ∃ name values assets, t = { s.trim.setAction noun verb with name, values, assets })
    (description : Option String) :
    (Game.record t (some description)).bookmarks.get? s.current =
      some (bookmarkText description s!"{noun}:{verb}") := by
  have hsnapshot := (hc.of_stayed ht).createSnapshot
  obtain ⟨name, values, assets, rfl⟩ := ht
  have hacted := hc.acted_createSnapshot noun verb name values assets
  have hqueue := hsnapshot.queue_snapshot hsnapshot.current_lt
  rw [hacted.current_eq] at hqueue
  rw [Game.record_of_pending rfl]
  dsimp only
  rw [Session.addBookmark?, hacted.current_eq, hqueue]
  dsimp only
  rw [Session.addBookmarkAt?, hacted.getElem?_queue hc]
  exact (SortedMap.get?_insert _ _ _ _).trans (if_pos rfl)

/-- All bookmarks that a verb asks for during an action that does not jump land on the action. Each
request is answered with the position that the entry of the action then has in the queue. The
description of the last one goes there, behind the bookmarks on earlier actions, which stay as they
are; and the snapshot for this position is the one that the action leads to. -/
theorem Reached.act_bookmarks {g : Game} (hg : g.session.Reached) (book : Book σ)
    {noun verb : String} (host : σ) {p : Page} {v : Verb} (hp : g.story.page? noun = some p)
    (hv : p.findVerb? verb = some v)
    (hstay : ∀ d ∈ g.actDeeds book noun verb host, d.jumps = false)
    {description : Option String}
    (hlast : Deed.lastBookmark? (g.actDeeds book noun verb host) = some description) :
    let q := g.session.current
    let entry := s!"{noun}:{verb}"
    ∃ reading g' host', g.act book noun verb host = .ok (reading, g', host') ∧
      (∀ f args answer, .call f args answer ∈ g.actDeeds book noun verb host →
        f = .bookmark ∨ f = .userBookmark → answer = .ofNat q) ∧
      g'.session.history.queue = g.session.history.queue.take q ++ [entry] ∧
      g'.session.history.queue[q]? = some entry ∧
      g'.session.bookmarks.entries = (g.session.bookmarks.entries.filter fun e => e.1 < q) ++
        [(q, bookmarkText description entry)] ∧
      g'.session.snapshotForQueue? q = some g'.session.current := by
  intro q entry
  have hc := hg.consistent
  have hposition : (g.actStage noun verb host).session.history.queue.length = q :=
    (congrArg List.length hc.queue_trim).trans hc.length_take_queue
  have hmarks : Marks q (g.actDeeds book noun verb host) (g.actStage noun verb host)
      (g.actRun book noun verb host).2 :=
    hposition ▸ (g.scripted_runVerb book Value.lasting_true noun verb).marks rfl hstay
  have hwaiting : (g.actRun book noun verb host).2.bookmark = some description := by
    rw [hmarks.waiting, hlast]
    rfl
  have hrun := g.session_actRun book noun verb host hstay
  have htext := hc.get?_record noun verb hrun description
  rw [← hwaiting] at htext
  have hacted : g.session.Acted (g.actSession book noun verb host) entry :=
    hc.acted_record noun verb hrun _
  have hentry := hacted.getElem?_queue hc
  have hconsistent : (g.actSession book noun verb host).Consistent :=
    (hc.of_stayed hrun).record _
  refine ⟨_, _, _, g.act_of_findVerb? book hp hv host, hmarks.answers, hacted.queue_eq, hentry,
    hacted.entries_bookmarks htext, ?_⟩
  rw [hacted.current_eq]
  exact hconsistent.snapshotForQueue?_eq (List.getElem?_eq_some_iff.mp hentry).1

/-- A room to doze in, where a rest ends in dozing. Both were done, and the rest was undone. -/
def roomGame : Game :=
  let g := Game.performed
    { story := (Story.load ("[room][:doze]!UserBookmark(a nap)" ++
        "[:rest]!Bookmark()!UserBookmark(a rest)!room:doze")).story }
    [("room", "doze"), ("room", "rest")]
  g.withSession (g.session.apply .undo)

/-- Of the three bookmarks that a second rest asks for, the one from dozing is put on it. -/
theorem act_bookmarks_room :
    let deeds := roomGame.actDeeds .silent "room" "rest" ()
    (roomGame.session.snapshots.length = 3 ∧ roomGame.session.current = 1) ∧
      deeds.filterMap Deed.bookmark? = [none, some "a rest", some "a nap"] ∧
      (∀ f args answer, .call f args answer ∈ deeds →
        f = .bookmark ∨ f = .userBookmark → answer = .ofNat 1) ∧
      ∃ reading g' host', roomGame.act .silent "room" "rest" () = .ok (reading, g', host') ∧
        g'.session.bookmarks.entries = [(0, "a nap"), (1, "a nap")] ∧
        g'.session.snapshotForQueue? 1 = some g'.session.current := by
  intro deeds
  have hreached : roomGame.session.Reached := .session .undo (.performed (.start _) _)
  obtain ⟨hlength, hcurrent, hverb, hrequests, hstay, hold⟩ :
      roomGame.session.snapshots.length = 3 ∧ roomGame.session.current = 1 ∧
        ((roomGame.story.page? "room").bind (·.findVerb? "rest")).isSome ∧
        deeds.filterMap Deed.bookmark? = [none, some "a rest", some "a nap"] ∧
        (∀ d ∈ deeds, d.jumps = false) ∧
        (roomGame.session.bookmarks.entries.filter fun e => e.1 < 1) = [(0, "a nap")] := by
    decide +kernel
  obtain ⟨v, hv⟩ := Option.isSome_iff_exists.mp hverb
  obtain ⟨p, hp, hv⟩ := Option.bind_eq_some_iff.mp hv
  have hlast : Deed.lastBookmark? deeds = some (some "a nap") := by
    rw [Deed.lastBookmark?, hrequests]
    rfl
  obtain ⟨reading, g', host', hact, hanswers, -, -, hentries, hsnapshot⟩ :=
    hreached.act_bookmarks .silent () hp hv hstay hlast
  rw [hcurrent] at hanswers hentries hsnapshot
  rw [hold] at hentries
  exact ⟨⟨hlength, hcurrent⟩, hrequests, hanswers, reading, g', host', hact,
    hentries.trans (by decide +kernel), hsnapshot⟩

end Session

end Gamebook
