import OrderedStore.Proofs.Host.Stored
import OrderedStore.Proofs.Table.Reading
import OrderedStore.Proofs.Table.Writing

/-!
# What a finished table answers

Entries are offered to a draft in any order, and those that cannot be added are refused. When the
draft is finished, its file holds the accepted entries and no trace of the others. Whoever opens
the file, through a buffer of whatever capacity, gets the accepted entries back, in reads of any
kind and number.

Main definitions:

- `Table.accepted`: the entries that are accepted of those offered.
- `Table.Draft.complete`: a draft is offered entries and finished.
- `Table.Query`, `Table.answer`: the reads of an open table, and what entries answer to them.

Main statement: `Table.Draft.complete_faithful`.
-/

namespace OrderedStore.Table

variable {conduct : Conduct} {host : Host} {v : View} {place : Location} {path : Path}
  {table : Table} {draft : Draft}
  {entry : TableEntry} {entries taken offers : List TableEntry}

/-! ## Offers -/

/-- The entries that are accepted of those offered one after the other: each may be added behind the
ones that were accepted before. -/
def accepted (offers : List TableEntry) : List TableEntry :=
  offers.foldl (fun front entry => if Acceptable front entry then front ++ [entry] else front) []

theorem accepted_concat (offers : List TableEntry) (entry : TableEntry) :
    accepted (offers ++ [entry]) =
      if Acceptable (accepted offers) entry then accepted offers ++ [entry]
      else accepted offers := by
  rw [accepted, List.foldl_append]
  rfl

/-- What is accepted makes up a table. -/
theorem wellFormed_accepted (short : ∀ entry ∈ offers, entry.1.length < Bytes.fieldSize 4) :
    WellFormed (accepted offers) := by
  induction offers using List.reverseRecOn with
  | nil => exact .nil
  | append_singleton offers entry ih =>
    have hfront := ih fun other hother => short other (List.mem_append_left _ hother)
    rw [accepted_concat]
    split
    · rename_i hacceptable
      exact hacceptable.wellFormed hfront (short entry (by simp))
    · exact hfront

namespace Draft

/-- Offers entries to a draft one after the other. One that is refused is answered with its error,
and the draft goes on as it was. -/
def offer (draft : Draft) : List TableEntry → Script (List (Except Error Unit) × Draft)
  | [] => return ([], draft)
  | entry :: rest => do
    match ← (draft.add entry.1 entry.2).run with
    | .ok next => do
      let (answers, last) ← next.offer rest
      return (.ok () :: answers, last)
    | .error e => do
      let (answers, last) ← draft.offer rest
      return (.error e :: answers, last)

/-- Offers entries to a draft and finishes it. -/
def complete (draft : Draft) (offers : List TableEntry) :
    Action (List (Except Error Unit) × Summary) := do
  let (answers, last) ← Action.ofScript (draft.offer offers)
  let summary ← last.finish
  return (answers, summary)

/-- Just the entries that may be added are accepted, behind others that were offered before. -/
def Judged (taken offers : List TableEntry) (answers : List (Except Error Unit)) : Prop :=
  answers.length = offers.length ∧ ∀ front entry rest, offers = front ++ entry :: rest →
    (answers[front.length]? = some (.ok ()) ↔ Acceptable (accepted (taken ++ front)) entry)

theorem Judged.cons {answer : Except Error Unit} {answers : List (Except Error Unit)}
    (first : answer = .ok () ↔ Acceptable (accepted taken) entry)
    (rest : Judged (taken ++ [entry]) offers answers) :
    Judged taken (entry :: offers) (answer :: answers) := by
  refine ⟨by simpa using rest.1, ?_⟩
  rintro (- | ⟨earlier, front⟩) other more heq
  · obtain ⟨rfl, rfl⟩ := List.cons.inj heq
    simpa using first
  · obtain ⟨rfl, htail⟩ := List.cons.inj heq
    simpa using rest.2 front other more htail

/-- The host refused something while entries were added. -/
def Hindered (answers : List (Except Error Unit)) : Prop :=
  ∃ e, .error e ∈ answers ∧ e.OfSystem

/-- A draft holds what was accepted of the offers, unless the host refused something. -/
theorem ensures_offer (holds : draft.Holds v place (accepted taken) host) :
    (draft.offer offers).Ensures conduct (fun _ => True)
      (fun result after => (conduct.Excuse ∧ Hindered result.1) ∨
        (Judged taken offers result.1 ∧
          result.2.Holds v place (accepted (taken ++ offers)) after)) host := by
  -- The induction is on what is left to offer; the draft holds what was accepted so far.
  induction offers generalizing taken draft host with
  | nil =>
    refine Or.inr ⟨⟨rfl, ?_⟩, by simpa using holds⟩
    intro front entry rest heq
    simp at heq
  | cons entry offers ih =>
    have hshift : taken ++ entry :: offers = taken ++ [entry] ++ offers := by simp
    rw [hshift]
    unfold offer
    by_cases hacceptable : Acceptable (accepted taken) entry
    · have hnext : accepted (taken ++ [entry]) = accepted taken ++ [entry] := by
        rw [accepted_concat, if_pos hacceptable]
      refine Action.Ensures.script_bind
        ((ensures_add holds hacceptable).mono (fun _ _ => trivial) ?_ ?_)
      · rintro next after ⟨_, hholds⟩
        rw [← hnext] at hholds
        refine Script.Ensures.bind_of (ih hholds) ?_
        rintro ⟨answers, last⟩ later (⟨excuse, e, hmem, he⟩ | ⟨hjudged, hlast⟩)
        · exact Or.inl ⟨excuse, e, List.mem_cons_of_mem _ hmem, he⟩
        · exact Or.inr ⟨hjudged.cons (by simp [hacceptable]), hlast⟩
      · rintro e after ⟨⟨hsystem, excuse⟩, _⟩
        refine Script.Ensures.bind_of ((Script.gives_any _).ensures after) fun _ _ _ => ?_
        exact Or.inl ⟨excuse, e, List.mem_cons_self .., hsystem⟩
    · -- The draft stays as it is, and so does what it holds.
      have hnext : accepted (taken ++ [entry]) = accepted taken := by
        rw [accepted_concat, if_neg hacceptable]
      obtain ⟨fault, hadd⟩ := add_of_not_acceptable holds hacceptable
      rw [← hnext] at holds
      rw [hadd]
      refine Action.Ensures.script_bind (Action.ensures_throw ?_)
      refine Script.Ensures.bind_of (ih holds) ?_
      rintro ⟨answers, last⟩ later (⟨excuse, e, hmem, he⟩ | ⟨hjudged, hlast⟩)
      · exact Or.inl ⟨excuse, e, List.mem_cons_of_mem _ hmem, he⟩
      · exact Or.inr ⟨hjudged.cons (by simp [hacceptable]), hlast⟩

/-- A draft that is offered entries is finished as the image of the accepted ones, unless the host
refuses something. -/
theorem ensures_complete (holds : draft.Holds v place [] host) :
    (draft.complete offers).Ensures conduct (fun _ => True)
      (fun result after => (conduct.Excuse ∧ Hindered result.1) ∨
        (Judged [] offers result.1 ∧ result.2.Describes (accepted offers) ∧
          after.Touched v place ∧
          ∃ id, after.view.file? place = some (id, image (accepted offers))))
      (fun _ _ => conduct.Excuse) host := by
  unfold complete
  refine Action.Ensures.bind_of (Action.ensures_ofScript
    (@ensures_offer _ host v place draft [] offers holds)) ?_ fun _ _ h => h
  rintro ⟨answers, last⟩ offered (⟨excuse, hhindered⟩ | ⟨hjudged, hlast⟩)
  · refine Action.Ensures.bind_of (Action.ensures_any last.finish offered) ?_ fun _ _ _ => excuse
    exact fun _ _ _ => Action.ensures_pure (Or.inl ⟨excuse, hhindered⟩)
  · refine Action.Ensures.bind_of ((ensures_finish hlast).mono (fun _ _ => trivial)
      (fun _ _ h => h) fun _ _ failed => failed.1) ?_ fun _ _ h => h
    rintro summary after ⟨htouched, hdescribes, hfile⟩
    exact Action.ensures_pure (Or.inr ⟨hjudged, hdescribes, htouched, hfile⟩)

/-- A draft that was started stands behind the path, with no entry yet. -/
theorem exists_holds_of_start {after : Host} {capacity : Nat} (sound : host.Sound)
    (started : (start path capacity).perform host = (.ok draft, after)) :
    ∃ v place id bytes, draft.Holds v place [] after ∧ after.Stores path place id bytes := by
  have hensures : (start path capacity).Ensures .own (fun _ => True)
      (fun draft after => ∃ v place id bytes, draft.Holds v place [] after ∧
        after.Stores path place id bytes) (fun _ _ => True) host := by
    unfold start
    refine Action.Ensures.bind (Action.ensures_openFile_replace_stored sound trivial
      (fun _ => trivial) ?_)
    intro place id opened hsound hstored
    have hholds : Output.Holds { handle := ⟨id⟩, capacity } opened.view place [] opened :=
      ⟨[], ⟨hsound, .refl _ _, hstored.file, rfl⟩, rfl⟩
    refine ⟨trivial, Action.Ensures.bind_of ((Output.ensures_putAll hholds _).mono
      (fun _ _ => trivial) (fun _ _ h => h) fun _ _ h => h) ?_ fun _ _ _ => trivial⟩
    rintro out last ⟨_, hout⟩
    -- What was put so far is the header of a table without entries.
    have hbytes : headerOf 0 ++ dataBytes [] = [] ++ (headerPieces 0).flatten := rfl
    rw [← hbytes] at hout
    have hdraft : Draft.Holds { path, out } opened.view place [] last := ⟨hout, rfl, rfl, rfl⟩
    obtain ⟨front, hstands, _⟩ := hout
    refine Action.ensures_pure ⟨opened.view, place, out.handle.id, front, hdraft, ?_⟩
    exact hstored.change hstands.same hstands.file
  have hrun := Script.Ensures.run hensures
  rw [Action.perform] at started
  rw [started] at hrun
  exact hrun

end Draft

/-! ## Reads -/

/-- A read of an open table. -/
inductive Query where
  /-- A walk over the entries that is broken off behind so many of them. -/
  | first (count : Nat)
  /-- A walk over all entries. -/
  | all
  /-- What the table says about a key. -/
  | get (key : Bytes)
  /-- The first entries from a key on. -/
  | scan (start : Bytes) (limit : Nat)

/-- What a read gives. -/
inductive Answer where
  | items (items : List (Except Error TableEntry))
  | value (value? : Except Error (Option Bytes))
  | page (page : Except Error (List TableEntry))

/-- Reads an open table. -/
def ask (table : Table) : Query → Script Answer
  | .first count => do return .items (← table.items count headerSize)
  | .all => do return .items (← table.all)
  | .get key => do return .value (← (table.get key).run)
  | .scan start limit => do return .page (← (table.scan start limit).run)

/-- Reads an open table time and again. -/
def askAll (table : Table) : List Query → Script (List Answer)
  | [] => return []
  | query :: rest => do
    let answer ← table.ask query
    return answer :: (← table.askAll rest)

/-- What entries in order answer to a read. -/
def answer (entries : List TableEntry) : Query → Answer
  | .first count => .items ((entries.take count).map .ok)
  | .all => .items (entries.map .ok)
  | .get key =>
    .value (match KeyMap.lookup key entries with
      | none => .error .keyNotFound
      | some value? => .ok value?)
  | .scan start limit => .page (.ok ((entries.filter (start ≤ ·.1)).take limit))

theorem ensures_items (sound : host.Sound) (opened : table.Opened host.view entries)
    (limit : Nat) :
    (table.items limit headerSize).Ensures .own (fun _ => True)
      (fun items after => items = (entries.take limit).map .ok ∧ after = host) host :=
  @ensures_itemsBehind .own (fun _ => True) host table entries [] entries sound opened trivial rfl
    limit []

/-- An open table answers what its entries answer, and reading it changes nothing. -/
theorem ensures_ask (sound : host.Sound) (opened : table.Opened host.view entries)
    (query : Query) :
    (table.ask query).Ensures .own (fun _ => True)
      (fun found after => found = answer entries query ∧ after = host) host := by
  cases query with
  | first count =>
    refine Script.Ensures.bind_of (ensures_items sound opened count) ?_
    rintro items _ ⟨rfl, rfl⟩
    exact ⟨rfl, rfl⟩
  | all =>
    -- The walk is bounded by the end of the data, and every entry takes some of it.
    have hend : table.layout.dataEnd = dataEndOf entries := by
      rw [opened.layout]
      rfl
    have hlength : entries.length ≤ table.layout.dataEnd := by
      rw [hend, dataEndOf]
      exact Nat.le_trans (length_le_length_dataBytes entries) (Nat.le_add_left ..)
    refine Script.Ensures.bind_of (ensures_items sound opened _) ?_
    rintro items _ ⟨rfl, rfl⟩
    rw [List.take_of_length_le hlength]
    exact ⟨rfl, rfl⟩
  | get key =>
    refine Action.Ensures.script_bind (Action.Ensures.bind_of
      (ensures_find? sound opened key trivial) ?_ fun _ _ h => h.elim)
    rintro found _ ⟨rfl, rfl⟩
    cases hlookup : KeyMap.lookup key entries with
    | none => exact Action.ensures_throw ⟨by rw [answer, hlookup], rfl⟩
    | some value? => exact Action.ensures_pure ⟨by rw [answer, hlookup], rfl⟩
  | scan start limit =>
    refine Action.Ensures.script_bind ((ensures_scan sound opened start limit trivial).mono
      (fun _ h => h) ?_ fun _ _ h => h.elim)
    rintro found _ ⟨rfl, rfl⟩
    have hfrom := KeyMap.entriesFrom_eq_filter ⟨entries, opened.wellFormed.ascending⟩ start
    rw [KeyMap.entriesFrom] at hfrom
    rw [hfrom]
    exact ⟨rfl, rfl⟩

theorem ensures_askAll (sound : host.Sound) (opened : table.Opened host.view entries)
    (queries : List Query) :
    (table.askAll queries).Ensures .own (fun _ => True)
      (fun found after => found = queries.map (answer entries) ∧ after = host) host := by
  induction queries with
  | nil => exact ⟨rfl, rfl⟩
  | cons query rest ih =>
    refine Script.Ensures.bind_of (ensures_ask sound opened query) ?_
    rintro found _ ⟨rfl, rfl⟩
    refine Script.Ensures.bind_of ih ?_
    rintro others _ ⟨rfl, rfl⟩
    exact ⟨rfl, rfl⟩

/-! ## From offers to answers -/

/-- Of the entries that are offered to a draft, just those are accepted that may be added behind the
ones accepted before. The finished file holds the accepted entries, and what is said about it is
true. It opens as a table, through a buffer of any capacity, and the table answers whatever it is
asked as the accepted entries do. -/
theorem Draft.complete_faithful {begun : Host} {capacity : Nat} (sound : host.Sound)
    (started : (Draft.start path capacity).perform host = (.ok draft, begun))
    (short : ∀ entry ∈ offers, entry.1.length < 0x100000000)
    (room : (draft.complete offers).run.FindsRoom begun) :
    ∃ answers summary after,
      (draft.complete offers).perform begun = (.ok (answers, summary), after) ∧
      answers.length = offers.length ∧
      (∀ front entry rest, offers = front ++ entry :: rest →
        (answers[front.length]? = some (.ok ()) ↔ Acceptable (accepted front) entry)) ∧
      after.disk.content? path = some (image (accepted offers)) ∧
      summary.Describes (accepted offers) ∧
      ∀ capacity, ∃ table, (Table.start path capacity).perform after = (.ok table, after) ∧
        table.layout.count = (accepted offers).length ∧
        ∀ queries, (table.askAll queries).run after =
          (queries.map (answer (accepted offers)), after) := by
  obtain ⟨v, place, id, bytes, holds, stored⟩ := exists_holds_of_start sound started
  have hwell : WellFormed (accepted offers) := wellFormed_accepted short
  have hrun := Script.Ensures.run_of_findsRoom (ensures_complete holds) room
  obtain ⟨front, hstands, _⟩ := holds.out
  generalize hperform : Script.run (draft.complete offers).run begun = result at hrun
  obtain ⟨_ | ⟨answers, summary⟩, after⟩ := result
  · exact absurd hrun Conduct.not_excuse_ample
  obtain ⟨⟨hlength, hjudged⟩, hdescribes, htouched, id', hfile⟩ :=
    hrun.resolve_left fun hindered => Conduct.not_excuse_ample hindered.1
  -- Only the file of the draft is another one, so the path leads to it still.
  have hstored : after.Stores path place id' (image (accepted offers)) :=
    stored.change (hstands.same.symm.trans htouched.same) hfile
  refine ⟨answers, summary, after, hperform, hlength, hjudged,
    Host.content?_eq_some_iff.2 ⟨place, id', hstored⟩, hdescribes, fun capacity => ?_⟩
  have hopening := @ensures_start_opened .own (fun _ => True) (fun _ _ => False) after place
    (accepted offers) path id' capacity htouched.sound hfile hwell trivial
    (Action.ensures_openFile_stored (Or.inl rfl) hstored trivial
      (fun unsteady => absurd Conduct.steady_own unsteady) ⟨rfl, rfl⟩)
  obtain ⟨table, later, hstart, hopened, _, _, rfl⟩ := Action.exists_of_ensures hopening
  refine ⟨table, hstart, ?_, fun queries => ?_⟩
  · rw [hopened.layout]
    rfl
  · have hasked := Script.Ensures.run (ensures_askAll htouched.sound hopened queries)
    exact Prod.ext hasked.1 hasked.2

/-- Five offers through a buffer without room: a key that comes again and one that comes too late
are refused, and the file is read in chunks of three bytes. -/
theorem Draft.complete_faithful_sifted :
    ∃ (host begun after : Host) (path : Path) (draft : Draft)
      (answers : List (Except Error Unit)) (summary : Summary) (table : Table),
      (Draft.start path 0).perform host = (.ok draft, begun) ∧
      (draft.complete [([], some []), ([1], none), ([1], some [7]), ([0], none),
        ([2], some [5, 6])]).perform begun = (.ok (answers, summary), after) ∧
      answers[1]? = some (.ok ()) ∧ answers[2]? ≠ some (.ok ()) ∧
      summary.count = 3 ∧ summary.minKey = [] ∧ summary.maxKey = [2] ∧
      (Table.start path 3).perform after = (.ok table, after) ∧
      (table.askAll [.scan [1] 1, .get [0], .get [1], .all]).run after =
        ([.page (.ok [([1], none)]), .value (.error .keyNotFound), .value (.ok none),
          .items [.ok ([], some []), .ok ([1], none), .ok ([2], some [5, 6])]], after) := by
  have hroom : (match (Draft.start (.ofText "table") 0).perform Host.empty with
      | (.ok draft, begun) => decide ((draft.complete [([], some []), ([1], none), ([1], some [7]),
          ([0], none), ([2], some [5, 6])]).run.FindsRoom begun)
      | (.error _, _) => false) = true := by decide +kernel
  generalize hstart : (Draft.start (.ofText "table") 0).perform Host.empty = result at hroom
  obtain ⟨_ | draft, begun⟩ := result
  · cases hroom
  obtain ⟨answers, summary, after, hcomplete, _, hjudged, _, hdescribes, hopen⟩ :=
    Draft.complete_faithful Host.sound_empty hstart (by decide) (of_decide_eq_true hroom)
  obtain ⟨table, hopened, _, hasked⟩ := hopen 3
  refine ⟨Host.empty, begun, after, .ofText "table", draft, answers, summary, table, hstart,
    hcomplete, ?_, ?_, hdescribes.count, hdescribes.minKey _ rfl, hdescribes.maxKey _ rfl, hopened,
    hasked _⟩
  · exact (hjudged [([], some [])] _ _ rfl).2 (by decide)
  · exact fun h => absurd ((hjudged [([], some []), ([1], none)] _ _ rfl).1 h) (by decide)

end OrderedStore.Table
