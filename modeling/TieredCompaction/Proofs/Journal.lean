import Mathlib.Data.List.Nodup
import Mathlib.Data.List.Perm.Subperm
import TieredCompaction.Journal
import TieredCompaction.Proofs.Folder
/-!
Sessions of a log. Each session with a line moves the log of the one before to the first free
numbered name, whatever names are taken, so that no line that was ever written is lost: the texts in
the folder are those that were there, and one more for each session with a line.
-/
namespace TieredCompaction

namespace Journal

/-! ### Names -/

theorem formerName_eq (n : Nat) : formerName n = "compaction-" ++ n.repr ++ ".log" := rfl

theorem formerName_injective : Function.Injective formerName := by
  intro m n same
  rw [formerName_eq, formerName_eq] at same
  have digits : m.repr = n.repr :=
    (String.append_right_inj _).mp ((String.append_left_inj _).mp same)
  have number := congrArg (fun text => Nat.ofDigitChars 10 text.toList 0) digits
  simpa using number

theorem formerName_ne_logName (n : Nat) : formerName n ≠ logName := by
  intro same
  have tenth := congrArg (fun name => name.toList[10]?) same
  simp [formerName_eq, logName, String.toList_append] at tenth

theorem formerName_ne_lastName (n : Nat) : formerName n ≠ lastName := by
  intro same
  have parts : lastName = "compaction-" ++ "rotated" ++ ".log" := by decide
  rw [parts, formerName_eq] at same
  have number : n.repr = "rotated" :=
    (String.append_right_inj _).mp ((String.append_left_inj _).mp same)
  have letter : 'r' ∈ Nat.toDigits 10 n := by
    rw [← Nat.toList_repr, number]
    decide
  exact absurd (Nat.isDigit_of_mem_toDigits (by decide) (by decide) letter) (by decide)

/-- Of more numbered names than there are entries, one is free. -/
theorem exists_free (d : Folder) : ∃ n < d.length + 1, d.has (formerName n) = false := by
  by_contra! taken
  have named : (List.range (d.length + 1)).map formerName ⊆ d.names := by
    intro name member
    obtain ⟨n, below, rfl⟩ := List.mem_map.mp member
    exact Folder.mem_names.mpr (Bool.not_eq_false _ ▸ taken n (List.mem_range.mp below))
  have distinct : ((List.range (d.length + 1)).map formerName).Nodup :=
    List.nodup_range.map formerName_injective
  have bound := (List.subperm_of_subset distinct named).length_le
  rw [Folder.names, List.length_map, List.length_map, List.length_range] at bound
  exact absurd bound (Nat.not_succ_le_self d.length)

/-- The name that a log moves to is the first numbered one that is free. -/
theorem freeName_spec (d : Folder) :
    ∃ n, freeName d = formerName n ∧ d.get? (formerName n) = none ∧
      ∀ k < n, d.has (formerName k) = true := by
  unfold freeName
  cases found : (List.range (d.length + 1)).find? fun n => !d.has (formerName n) with
  | none =>
    obtain ⟨n, below, free⟩ := exists_free d
    have taken := List.find?_eq_none.mp found n (List.mem_range.mpr below)
    simp [free] at taken
  | some n =>
    obtain ⟨free, -, before⟩ := List.find?_range_eq_some.mp found
    refine ⟨n, rfl, Folder.has_eq_false.mp (by simpa using free), fun k below => ?_⟩
    simpa using before k below

/-! ### One session -/

/-- The text of a log with these lines. -/
def textOf (lines : List String) : String :=
  String.join (lines.map (· ++ "\n"))

/-- The texts of the sessions that have a line. -/
def texts (sessions : List (List String)) : List Node :=
  (sessions.filter (· ≠ [])).map fun lines => .file (textOf lines)

/-- What a session with these lines makes of the folder of its log. -/
inductive Session : List String → Folder → Folder → Prop
  | silent (d : Folder) : Session [] d d
  /-- There is no log yet. -/
  | first {lines : List String} {d d' : Folder} (written : lines ≠ [])
      (absent : d.get? logName = none)
      (log : d'.get? logName = some (.file (textOf lines)))
      (others : ∀ name, name ≠ logName → d'.get? name = d.get? name) : Session lines d d'
  /-- The log that is there moves to the first free numbered name. -/
  | next {lines : List String} {d d' : Folder} {old : Node} {n : Nat} (written : lines ≠ [])
      (present : d.get? logName = some old)
      (free : d.get? (formerName n) = none) (taken : ∀ k < n, d.has (formerName k) = true)
      (log : d'.get? logName = some (.file (textOf lines)))
      (moved : d'.get? (formerName n) = some old)
      (others : ∀ name, name ≠ logName → name ≠ formerName n → d'.get? name = d.get? name) :
      Session lines d d'

variable {d d' : Folder} {name : String} {node : Node}

/-- The name without a number stays as it is. -/
theorem Session.last_kept {lines : List String} (session : Session lines d d') :
    d'.get? lastName = d.get? lastName := by
  have other : lastName ≠ logName := by decide
  cases session with
  | silent => rfl
  | first _ _ _ others => exact others lastName other
  | @next _ _ _ _ n _ _ _ _ _ _ others =>
    exact others lastName other (formerName_ne_lastName n).symm

/-- A folder with no two entries of one name, in which the log is a file if there is one. -/
structure Tidy (d : Folder) : Prop where
  names : d.names.Nodup
  log : ∀ entries, d.get? logName ≠ some (.folder entries)

theorem moveLog_absent (absent : d.get? logName = none) : moveLog d = d := by
  rw [moveLog, Folder.has_eq_false.mpr absent, if_neg Bool.false_ne_true]

theorem moveLog_present (present : d.get? logName = some node) :
    moveLog d = (d.erase logName).put (freeName d) node := by
  rw [moveLog, if_pos (Folder.has_iff.mpr ⟨node, present⟩), Folder.rename, present]

/-- The name that the log moves to is free without the log, too. -/
theorem freeName_absent (d : Folder) : (d.erase logName).get? (freeName d) = none := by
  obtain ⟨n, name, free, -⟩ := freeName_spec d
  rw [Folder.get?_erase, name, free, ite_self]

theorem freeName_ne_logName (d : Folder) : freeName d ≠ logName := by
  obtain ⟨n, name, -⟩ := freeName_spec d
  rw [name]
  exact formerName_ne_logName n

/-- The folder after a session: the old log has moved, and the lines are in the new one. -/
def logged (d : Folder) (lines : List String) : Folder :=
  if lines = [] then d else (moveLog d).put logName (.file (textOf lines))

theorem get?_moveLog_log (d : Folder) : (moveLog d).get? logName = none := by
  cases present : d.get? logName with
  | none => rw [moveLog_absent present, present]
  | some old =>
    rw [moveLog_present present, Folder.get?_put_of_ne (freeName_ne_logName d).symm,
      Folder.get?_erase, if_pos rfl]

/-- Only the log moves. -/
theorem entry_kept_moveLog (other : name ≠ logName) (found : d.get? name = some node) :
    (moveLog d).get? name = some node := by
  cases present : d.get? logName with
  | none => rw [moveLog_absent present, found]
  | some old =>
    obtain ⟨n, free, absent, -⟩ := freeName_spec d
    have unmoved : name ≠ freeName d := by
      rw [free]
      rintro rfl
      exact Option.some_ne_none node (found.symm.trans absent)
    rw [moveLog_present present, Folder.get?_put_of_ne unmoved, Folder.get?_erase,
      if_neg (Ne.symm other), found]

theorem entry_kept_logged (lines : List String) (other : name ≠ logName)
    (found : d.get? name = some node) : (logged d lines).get? name = some node := by
  unfold logged
  split
  case isTrue => exact found
  case isFalse => rw [Folder.get?_put_of_ne other, entry_kept_moveLog other found]

theorem session_logged (d : Folder) (lines : List String) : Session lines d (logged d lines) := by
  unfold logged
  split
  case isTrue empty =>
    subst lines
    exact .silent d
  case isFalse written =>
    cases present : d.get? logName with
    | none =>
      refine .first written present Folder.get?_put_self fun name other => ?_
      rw [Folder.get?_put_of_ne other, moveLog_absent present]
    | some old =>
      obtain ⟨n, name, free, taken⟩ := freeName_spec d
      have moved : moveLog d = (d.erase logName).put (formerName n) old :=
        name ▸ moveLog_present present
      refine .next written present free taken Folder.get?_put_self ?_ fun name other unmoved => ?_
      · rw [Folder.get?_put_of_ne (formerName_ne_logName n), moved, Folder.get?_put_self]
      · rw [Folder.get?_put_of_ne other, moved, Folder.get?_put_of_ne unmoved, Folder.get?_erase,
          if_neg (Ne.symm other)]

theorem contents_moveLog (nodup : d.names.Nodup) : (moveLog d).contents.Perm d.contents := by
  cases present : d.get? logName with
  | none => rw [moveLog_absent present]
  | some old =>
    rw [moveLog_present present, Folder.contents_put_absent (freeName_absent d)]
    exact (List.perm_append_singleton old _).trans (Folder.contents_erase nodup present).symm

theorem nodup_moveLog (nodup : d.names.Nodup) : (moveLog d).names.Nodup := by
  cases present : d.get? logName with
  | none => rwa [moveLog_absent present]
  | some old =>
    rw [moveLog_present present]
    exact Folder.nodup_put_absent (nodup.sublist (List.filter_sublist.map _)) (freeName_absent d)

/-- A session with a line adds a text to those in the folder. -/
theorem contents_logged (nodup : d.names.Nodup) (lines : List String) :
    (logged d lines).contents.Perm (d.contents ++ texts [lines]) := by
  unfold logged texts
  split
  case isTrue empty => simp [empty]
  case isFalse written =>
    rw [Folder.contents_put_absent (get?_moveLog_log d), List.filter_cons_of_pos (by simpa)]
    exact (contents_moveLog nodup).append_right _

theorem tidy_logged (tidy : Tidy d) (lines : List String) : Tidy (logged d lines) := by
  unfold logged
  split
  case isTrue => exact tidy
  case isFalse =>
    refine ⟨Folder.nodup_put_absent (nodup_moveLog tidy.names) (get?_moveLog_log d), ?_⟩
    intro entries folder
    rw [Folder.get?_put_self] at folder
    cases folder

/-! ### Sessions in a tree of folders -/

variable {root : Node} {path : String} {place : Place}

/-- The folder of a log is found again with other files in it, and what was found is replaced. -/
theorem folderFor_set (found : root.folderFor path logName = .ok (place, d))
    (kept : ∀ name entries, d.get? name = some (.folder entries) →
      d'.get? name = some (.folder entries)) :
    (root.set place (.folder d')).folderFor path logName = .ok (place, d') := by
  obtain ⟨faultless, located, here⟩ := Node.folderFor_eq_ok.mp found
  refine Node.folderFor_eq_ok.mpr ⟨faultless, ?_, Node.get?_set here⟩
  exact Node.locate_wider (Node.wider_set here kept) located here

theorem start_of_folder (found : root.folderFor path logName = .ok (place, d)) (tidy : Tidy d)
    (j : Journal) (line : String) :
    j.start root path line =
      (root.set place (.folder ((moveLog d).put logName (.file (line ++ "\n")))),
        startNotices path d, .ok { j with opened := some place }) := by
  have here := (Node.folderFor_eq_ok.mp found).2.2
  have again : (root.set place (.folder (moveLog d))).folderFor path logName =
      .ok (place, moveLog d) :=
    folderFor_set found fun name entries folder =>
      entry_kept_moveLog (fun same => tidy.log entries (same ▸ folder)) folder
  simp only [start, found, again, Node.set_set here]

theorem textOf_cons (line : String) (rest : List String) :
    textOf (line :: rest) = line ++ "\n" ++ textOf rest :=
  String.join_cons

/-- Once the log is opened, the lines are added to it. -/
theorem writeAll_opened {j : Journal} {text : String} (opened : j.opened = some place)
    (here : root.get? place = some (.folder (d.put logName (.file text)))) (now : Int)
    (lines : List String) :
    (writeAll path now j root lines).1 =
      root.set place (.folder (d.put logName (.file (text ++ textOf lines)))) := by
  induction lines generalizing root text with
  | nil =>
    rw [writeAll, textOf, List.map_nil, String.join_nil, String.append_empty, Node.set_same here]
  | cons line rest ih =>
    have added : addLine root place line =
        root.set place (.folder (d.put logName (.file (text ++ (line ++ "\n"))))) := by
      simp only [addLine, here, Folder.append, Folder.get?_put_self, Folder.put_put]
    simp only [writeAll, write, opened, added]
    rw [ih (Node.get?_set here), Node.set_set here, textOf_cons, String.append_assoc,
      String.append_assoc]

/-- A session whose folder is found writes its lines there, and nothing else. -/
theorem writeAll_of_folder (found : root.folderFor path logName = .ok (place, d)) (tidy : Tidy d)
    (now : Int) (lines : List String) :
    (writeAll path now {} root lines).1 = root.set place (.folder (logged d lines)) := by
  have here := (Node.folderFor_eq_ok.mp found).2.2
  cases lines with
  | nil => rw [writeAll, logged, if_pos rfl, Node.set_same here]
  | cons line rest =>
    simp only [writeAll, write, start_of_folder found tidy]
    rw [writeAll_opened rfl (Node.get?_set here), Node.set_set here, logged,
      if_neg (List.cons_ne_nil line rest), textOf_cons]

/-- A session whose folder is not found drops its lines, each on its own. -/
theorem writeAll_missing {cause : PathError} (missing : root.folderFor path logName = .error cause)
    (now : Int) {j : Journal} (closed : j.opened = none) (lines : List String) :
    (writeAll path now j root lines).1 = root := by
  induction lines generalizing j with
  | nil => rfl
  | cons line rest ih =>
    have failed : (j.fail now cause).1.opened = none := by
      unfold fail
      split <;> exact closed
    simp only [writeAll, write, closed, start, missing]
    exact ih failed

/-! ### All sessions -/

/-- What sessions with these lines make of a folder, one after the other. -/
inductive Sessions : List (List String) → Folder → Folder → Prop
  | done (d : Folder) : Sessions [] d d
  | session {lines : List String} {rest : List (List String)} {d between d' : Folder}
      (first : Session lines d between) (others : Sessions rest between d') :
      Sessions (lines :: rest) d d'

/-- What sessions keep in a folder. -/
structure Kept (sessions : List (List String)) (d d' : Folder) : Prop where
  course : Sessions sessions d d'
  /-- Entries stay as they are, but for the log that moves. -/
  entries : ∀ name node, name ≠ logName → d.get? name = some node → d'.get? name = some node
  /-- No two entries have one name. -/
  names : d'.names.Nodup
  /-- Each text that was there is in one entry, and so is the text of each session with a line. -/
  contents : d'.contents.Perm (d.contents ++ texts sessions)
  /-- The name without a number is not used. -/
  last : d'.get? lastName = d.get? lastName

/-- The tree after sessions with the lines given, each at its time. -/
def run (path : String) (root : Node) (sessions : List (Int × List String)) : Node :=
  sessions.foldl (fun root session => (writeAll path session.1 {} root session.2).1) root

theorem run_missing {cause : PathError} (missing : root.folderFor path logName = .error cause)
    (sessions : List (Int × List String)) : run path root sessions = root := by
  induction sessions with
  | nil => rfl
  | cons session rest ih =>
    rw [run, List.foldl_cons, writeAll_missing missing session.1 rfl, ← run, ih]

theorem Kept.nil (nodup : d.names.Nodup) : Kept [] d d where
  course := .done d
  entries _ _ _ found := found
  names := nodup
  contents := by rw [texts, List.filter_nil, List.map_nil, List.append_nil]
  last := rfl

/-- One session before others. -/
theorem Kept.cons {lines : List String} {rest : List (List String)} (nodup : d.names.Nodup)
    (kept : Kept rest (logged d lines) d') : Kept (lines :: rest) d d' := by
  have session := session_logged d lines
  have split : texts (lines :: rest) = texts [lines] ++ texts rest := by
    rw [texts, texts, texts, ← List.map_append, ← List.filter_append, List.singleton_append]
  constructor
  case course => exact .session session kept.course
  case entries =>
    intro name node other found
    exact kept.entries name node other (entry_kept_logged lines other found)
  case names => exact kept.names
  case contents =>
    rw [split, ← List.append_assoc]
    exact kept.contents.trans ((contents_logged nodup lines).append_right _)
  case last => rw [kept.last, session.last_kept]

theorem run_kept (found : root.folderFor path logName = .ok (place, d)) (tidy : Tidy d)
    (sessions : List (Int × List String)) :
    ∃ d', run path root sessions = root.set place (.folder d') ∧
      (run path root sessions).folderFor path logName = .ok (place, d') ∧
      Kept (sessions.map (·.2)) d d' := by
  have here := (Node.folderFor_eq_ok.mp found).2.2
  induction sessions generalizing root d with
  | nil => exact ⟨d, (Node.set_same here).symm, found, .nil tidy.names⟩
  | cons session rest ih =>
    obtain ⟨now, lines⟩ := session
    have written : run path root ((now, lines) :: rest) =
        run path (root.set place (.folder (logged d lines))) rest := by
      rw [run, List.foldl_cons, writeAll_of_folder found tidy, ← run]
    have again : (root.set place (.folder (logged d lines))).folderFor path logName =
        .ok (place, logged d lines) :=
      folderFor_set found fun name entries folder =>
        entry_kept_logged lines (fun same => tidy.log entries (same ▸ folder)) folder
    obtain ⟨d', result, reached, kept⟩ := ih again (tidy_logged tidy lines) (Node.get?_set here)
    rw [written]
    exact ⟨d', by rw [result, Node.set_set here], reached, .cons tidy.names kept⟩

/-- No session loses a line, whatever files are in the folder: the log of the session before moves
to the first numbered name that is free, all other entries stay as they are, and the new log has the
lines of the session. A session without a line, or without a folder, changes nothing. -/
theorem run_loses_no_line (path : String) (root : Node) (sessions : List (Int × List String))
    (tidy : ∀ place d, root.folderFor path logName = .ok (place, d) → Tidy d) :
    match root.folderFor path logName with
    | .error _ => run path root sessions = root
    | .ok (place, d) =>
      ∃ d', run path root sessions = root.set place (.folder d') ∧
        (run path root sessions).folderFor path logName = .ok (place, d') ∧
        Kept (sessions.map (·.2)) d d' := by
  split
  case h_1 missing => exact run_missing missing sessions
  case h_2 found => exact run_kept found (tidy _ _ found) sessions

/-- A log and two former ones, which leave a number free between them. -/
def sampleFolder : Folder :=
  [("compaction-0.log", .file "oldest\n"), ("compaction.log", .file "old\n"),
    ("compaction-2.log", .file "older\n")]

/-- The same folder after two sessions with lines. -/
def laterFolder : Folder :=
  [("compaction-0.log", .file "oldest\n"), ("compaction-2.log", .file "older\n"),
    ("compaction-1.log", .file "old\n"), ("compaction-3.log", .file "a\nb\n"),
    ("compaction.log", .file "c\n")]

/-- Free numbers are used up in order, and a session without a line takes none. -/
theorem free_numbers_in_order :
    run "logs" (.folder [("logs", .folder sampleFolder)]) [(0, []), (1, ["a", "b"]), (2, ["c"])] =
        .folder [("logs", .folder laterFolder)] ∧
      Kept [[], ["a", "b"], ["c"]] sampleFolder laterFolder := by
  have found : (Node.folder [("logs", .folder sampleFolder)]).folderFor "logs" logName =
      .ok (["logs"], sampleFolder) := by
    rfl
  have there : run "logs" (.folder [("logs", .folder sampleFolder)])
      [(0, []), (1, ["a", "b"]), (2, ["c"])] = .folder [("logs", .folder laterFolder)] := by
    rfl
  have tidy : ∀ place d,
      (Node.folder [("logs", .folder sampleFolder)]).folderFor "logs" logName = .ok (place, d) →
        Tidy d := by
    intro place d again
    cases found.symm.trans again
    exact ⟨by decide, nofun⟩
  have kept := run_loses_no_line "logs" (.folder [("logs", .folder sampleFolder)])
    [(0, []), (1, ["a", "b"]), (2, ["c"])] tidy
  simp only [found] at kept
  obtain ⟨d', result, -, kept⟩ := kept
  cases result.symm.trans there
  exact ⟨there, kept⟩

end Journal

end TieredCompaction
