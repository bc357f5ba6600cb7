import OrderedStore.Proofs.Log.Writing

/-!
# Walking a log

A walk over a log file reads it piece by piece, and makes its checks as the pieces come in. It gives
out what one finds who has the whole file, decodes a frame at its front, drops the frame, and
decodes again, up to the first fault.

Main definitions:

- `Log.Frame.Repeated`: the records that are decoded one after the other, and what is left then.
- `Log.Walk.replies`: what a walk replies when it is asked again and again.

Main statement: `Log.Walk.repeats_decoding`.
-/

namespace OrderedStore.Log

/-- Decoding the frame at the front of some bytes, dropping it, and repeating this any number of
times: the records, and what is left behind their frames. -/
inductive Frame.Repeated : Bytes → List Record → Bytes → Prop where
  | start {bytes : Bytes} : Repeated bytes [] bytes
  | next {bytes rest : Bytes} {record : Record} {found : List Record} :
      Frame.decode bytes = .ok record → Repeated (bytes.drop (Frame.reach bytes)) found rest →
      Repeated bytes (record :: found) rest

/-- No header that decoding comes to announces more than a payload can have. -/
def Frame.Modest (bytes : Bytes) : Prop :=
  ∀ found rest, Repeated bytes found rest → Header.size ≤ rest.length →
    (Header.decode rest).length ≤ Frame.payloadLimit

/-- Decoding comes to a fault, at the end of the bytes if not before. -/
theorem Frame.exists_repeated (bytes : Bytes) :
    ∃ found rest fault, Repeated bytes found rest ∧ Frame.decode rest = .error fault := by
  induction hlength : bytes.length using Nat.strongRecOn generalizing bytes with
  | ind length ih =>
    cases hdecode : Frame.decode bytes with
    | error fault => exact ⟨[], bytes, fault, .start, hdecode⟩
    | ok record =>
      have hreach := reach_le_of_decode hdecode
      have hsize : 0 < reach bytes := Nat.lt_of_lt_of_le (by decide) (Nat.le_add_right ..)
      have hless : (bytes.drop (reach bytes)).length < length := by
        rw [List.length_drop]
        omega
      obtain ⟨found, rest, fault, hrepeated, hfault⟩ := ih _ hless _ rfl
      exact ⟨record :: found, rest, fault, .next hdecode hrepeated, hfault⟩

/-- There is one fault that decoding comes to. -/
theorem Frame.Repeated.unique {bytes rest rest' : Bytes} {found found' : List Record}
    {fault fault' : Error} (h : Repeated bytes found rest) (faulty : decode rest = .error fault)
    (h' : Repeated bytes found' rest') (faulty' : decode rest' = .error fault') :
    found = found' ∧ rest = rest' := by
  -- Along the first repetition: the second one neither stops earlier nor goes on behind it.
  induction h generalizing found' with
  | start =>
    cases h' with
    | start => exact ⟨rfl, rfl⟩
    | next decoded _ =>
      rw [faulty] at decoded
      cases decoded
  | next decoded _ ih =>
    cases h' with
    | start =>
      rw [faulty'] at decoded
      cases decoded
    | next decoded' h' =>
      obtain rfl := Except.ok.inj (decoded.symm.trans decoded')
      obtain ⟨rfl, rfl⟩ := ih faulty h'
      exact ⟨rfl, rfl⟩

/-- A frame that reads is one that decoding passes over. -/
theorem Frame.Repeated.of_split? {bytes behind rest : Bytes} {record : Record}
    {found : List Record} (front : split? bytes = some (record, behind))
    (h : Repeated behind found rest) : Repeated bytes (record :: found) rest := by
  obtain ⟨_, hdecode, rfl⟩ := split?_eq_some_iff_decode.1 front
  exact .next hdecode h

theorem Frame.Modest.of_split? {bytes behind : Bytes} {record : Record}
    (front : split? bytes = some (record, behind)) (h : Modest behind) : Modest bytes := by
  obtain ⟨hlimit, hdecode, rfl⟩ := split?_eq_some_iff_decode.1 front
  intro found rest hrepeated long
  cases hrepeated with
  | start => exact hlimit
  | next decoded hrest => exact h _ _ hrest long

theorem Frame.modest_of_short {bytes : Bytes} (short : bytes.length < Header.size) :
    Modest bytes := by
  intro found rest hrepeated long
  cases hrepeated with
  | start => omega
  | next decoded _ =>
    have hreach := reach_le_of_decode decoded
    have hsize : Header.size ≤ reach bytes := Nat.le_add_right ..
    omega

namespace Walk

/-- What a walk replies when it is asked a number of times. -/
def replies : (count : Nat) → Walk → Script (List (Option (Except Error Record)))
  | 0, _ => return []
  | count + 1, walk => do
    let (reply, walk) ← walk.next
    let others ← replies count walk
    return reply :: others

/-- What a walk gives out that comes upon some records, and then on a failure or on the end. -/
def items (found : List Record) (failure : Option Error) : List (Except Error Record) :=
  found.map .ok ++ failure.toList.map .error

variable {host : Host} {target : Location} {path : Path} {handle : Handle} {bytes rest last : Bytes}
  {walk : Walk} {found : List Record} {fault : Error} {given : List (Except Error Record)}

/-- However often a walk is asked, it replies with some items, and then with the end. -/
def Owes (walk : Walk) (host : Host) (given : List (Except Error Record)) : Prop :=
  ∀ count, (replies count walk).Ensures .own (fun _ => True)
    (fun found after => found = (List.range count).map (given[·]?) ∧ after = host) host

theorem owes_of_next
    (h : walk.next.Ensures .own (fun _ => True)
      (fun result after => after = host ∧ result.1 = given.head? ∧
        result.2.Owes host given.tail) host) :
    walk.Owes host given := by
  intro count
  cases count with
  | zero => exact ⟨rfl, rfl⟩
  | succ count =>
    refine Script.Ensures.bind_of h ?_
    rintro ⟨reply, walk'⟩ _ ⟨rfl, rfl, howes⟩
    refine Script.Ensures.bind_of (howes count) ?_
    rintro others _ ⟨rfl, rfl⟩
    refine ⟨?_, rfl⟩
    rw [List.range_succ_eq_map, List.map_cons, List.map_map]
    cases given with
    | nil => rfl
    | cons item given => rfl

theorem owes_of_finished (finished : walk.finished = true) : walk.Owes host [] := by
  intro count
  induction count with
  | zero => exact ⟨rfl, rfl⟩
  | succ count ih =>
    have hnext : walk.next = .done (none, walk) := by
      unfold next
      rw [if_pos finished]
      rfl
    unfold replies
    rw [hnext, Script.bind_done]
    refine Script.Ensures.bind_of ih ?_
    rintro others _ ⟨rfl, rfl⟩
    exact ⟨by simp [List.range_succ_eq_map, Function.comp_def], rfl⟩

/-- What a walk makes of a reply of its stream. -/
def taken (stream : Stream) : Except Error (Option Record) → Option (Except Error Record) × Walk
  | .ok (some record) => (some (.ok record), { stream })
  | .ok none => (none, { stream, finished := true })
  | .error e => (some (.error e), { stream, finished := true })

/-- A walk that is not finished makes of the reading of its stream what it replies. -/
theorem owes_of_reading {reply : Except Error (Option Record)} {left : Bytes} {position : Nat}
    (sound : host.Sound) (file : host.view.file? target = some (handle.id, bytes))
    (stands : walk.stream.Stands handle bytes rest) (running : walk.finished = false)
    (reading : Stream.reading walk.stream.position rest = ⟨reply, left, position⟩)
    (done : ∀ stream : Stream, stream.Stands handle bytes left → stream.position = position →
      (taken stream reply).1 = given.head? ∧ (taken stream reply).2.Owes host given.tail) :
    walk.Owes host given := by
  apply owes_of_next
  unfold next
  rw [running]
  refine Script.Ensures.bind (Stream.ensures_next_reading sound file stands trivial ?_)
  rw [reading]
  intro stream hstands hposition
  have hdone := done stream hstands hposition
  cases reply with
  | error e => exact ⟨rfl, hdone⟩
  | ok result =>
    cases result with
    | none => exact ⟨rfl, hdone⟩
    | some record => exact ⟨rfl, hdone⟩

/-- A walk that is not finished gives out what is decoded from where its stream stands. -/
theorem owes_of_repeated (sound : host.Sound)
    (file : host.view.file? target = some (handle.id, bytes))
    (stands : walk.stream.Stands handle bytes rest) (running : walk.finished = false)
    (position : walk.stream.position + rest.length = bytes.length)
    (modest : Frame.Modest rest) (repeated : Frame.Repeated rest found last)
    (faulty : Frame.decode last = .error fault) :
    walk.Owes host (items found
      (if last = [] then none else some (Stream.located (bytes.length - last.length) fault))) := by
  -- Along the decoded frames; the walk and its position change with each of them.
  induction repeated generalizing walk with
  | @start last =>
    by_cases hempty : last = []
    · subst hempty
      exact owes_of_reading sound file stands running rfl fun _ _ _ => ⟨rfl, owes_of_finished rfl⟩
    · have hoffset : bytes.length - last.length = walk.stream.position := by omega
      rw [if_neg hempty, hoffset]
      exact owes_of_reading sound file stands running
        (Stream.reading_of_error hempty (modest [] last .start) faulty _)
        fun _ _ _ => ⟨rfl, owes_of_finished rfl⟩
  | @next rest last record found decoded _ ih =>
    have hreach := Frame.reach_le_of_decode decoded
    have hsize : Header.size ≤ Frame.reach rest := Nat.le_add_right ..
    have hmodest : Frame.Modest (rest.drop (Frame.reach rest)) := by
      intro found' rest' hrepeated
      exact modest (record :: found') rest' (.next decoded hrepeated)
    refine owes_of_reading sound file stands running
      (Stream.reading_of_ok (modest [] rest .start (by omega)) decoded _) ?_
    intro stream hstands hposition
    have hbehind : stream.position + (rest.drop (Frame.reach rest)).length = bytes.length := by
      rw [hposition, List.length_drop]
      omega
    exact ⟨rfl, ih hstands rfl hbehind hmodest faulty⟩

/-- A walk over a log file gives out, however often it is asked, what repeated decoding of the whole
file finds: the records up to the first fault, and then one failure at this place, unless the file
has been used up. -/
theorem repeats_decoding (sound : host.Sound) (content : host.disk.content? path = some bytes)
    (modest : Frame.Modest bytes) :
    ∃ (found : List Record) (rest : Bytes) (fault : Error) (failure : Option Error)
        (stream : Stream),
      Frame.Repeated bytes found rest ∧ Frame.decode rest = .error fault ∧
      failure = (if rest = [] then none
        else some (Stream.located (bytes.length - rest.length) fault)) ∧
      (Stream.start path).perform host = (.ok stream, host) ∧
      ∀ count, (replies count { stream }).run host =
        ((List.range count).map ((items found failure)[·]?), host) := by
  obtain ⟨place, id, stored⟩ := Host.content?_eq_some_iff.1 content
  obtain ⟨found, rest, fault, hrepeated, hfault⟩ := Frame.exists_repeated bytes
  refine ⟨found, rest, fault, _, { handle := ⟨id⟩ }, hrepeated, hfault, rfl, ?_, ?_⟩
  · exact Action.perform_of_ensures (Stream.ensures_start_stored Conduct.steady_own stored trivial)
  · intro count
    have howes := owes_of_repeated sound stored.file (Stream.stands_start ⟨id⟩ bytes)
      (rfl : Walk.finished { stream := { handle := ⟨id⟩ } } = false) (Nat.zero_add _) modest
      hrepeated hfault count
    exact Prod.ext howes.run.1 howes.run.2

/-- Two records and three more bytes, and a fourth question after the failure. -/
theorem repeats_decoding_torn :
    ∃ (host : Host) (path : Path) (first second : Record) (stream : Stream),
      first ≠ second ∧
      host.disk.content? path = some (first.frame ++ (second.frame ++ [1, 2, 3])) ∧
      (Stream.start path).perform host = (.ok stream, host) ∧
      (replies 4 { stream }).run host =
        ([some (.ok first), some (.ok second),
          some (.error (.logCorruption (.partialHeader 98))), none], host) := by
  let first : Record := ⟨7, .one (.put [1] [2]), 0⟩
  let second : Record := ⟨7, .one (.delete []), 0⟩
  obtain ⟨host, hsound, hcontent⟩ := @Host.exists_storing
    (first.frame ++ (second.frame ++ [1, 2, 3])) (by decide +kernel)
  have hsplit := Frame.split?_append
    (@Frame.split?_ofPayload second (by decide +kernel)) [1, 2, 3]
  have hsplit' := Frame.split?_append
    (@Frame.split?_ofPayload first (by decide +kernel)) (second.frame ++ [1, 2, 3])
  have hshort : Frame.Modest [1, 2, 3] := Frame.modest_of_short (by decide)
  obtain ⟨found, rest, fault, failure, stream, hrepeated, hfault, rfl, hstart, hreplies⟩ :=
    repeats_decoding hsound hcontent (.of_split? hsplit' (.of_split? hsplit hshort))
  obtain ⟨rfl, rfl⟩ := hrepeated.unique hfault (.of_split? hsplit' (.of_split? hsplit .start)) rfl
  obtain rfl := Except.error.inj hfault
  refine ⟨host, .ofText "file", first, second, stream, by decide, hcontent, hstart, ?_⟩
  rw [hreplies]
  rfl

end Walk

end OrderedStore.Log
