import Mathlib.Data.List.DropRight
import Smrt.Lib.Split

/-!
# Files of lines

A file that lists texts, one on each line: the lines without the white space around them, the empty
ones left out (`entries`). A text is added on a line of its own at the end (`addLine`), or the file
is written anew from a list (`writeLines`).

* `entries_addLine`, `entries_writeLines`: what is listed then.
-/

namespace Smrt

/-- The lines of a text, without what ends them; nothing comes after the end of the last one. -/
def lines (text : String) : List (List Char) :=
  let all := text.toList.splitOn '\n'
  (if all.getLast? = some [] then all.dropLast else all).map fun line =>
    if line.getLast? = some '\r' then line.dropLast else line

/-- The texts that a file lists. -/
def entries (text : String) : List String :=
  ((lines text).map fun line => trim (String.ofList line)).filter fun entry => entry ≠ ""

/-- A text on a line of its own, at the end of a file. -/
def addLine (text line : String) : String :=
  (if text ≠ "" ∧ text.toList.getLast? ≠ some '\n' then text ++ "\n" else text) ++ line ++ "\n"

/-- A file of some lines. -/
def writeLines (l : List String) : String :=
  let text := String.ofList (['\n'].intercalate (l.map String.toList))
  if text ≠ "" then text ++ "\n" else text

/-- A text that a file can list. -/
structure IsEntry (entry : String) : Prop where
  ne : entry ≠ ""
  trim : trim entry = entry
  line : '\n' ∉ entry.toList

section Trim

theorem toList_trim (s : String) :
    (trim s).toList = (s.toList.dropWhile isWhiteSpace).rdropWhile isWhiteSpace :=
  String.toList_ofList

/-- There is no white space at the start of what is left. -/
theorem dropWhile_toList_trim (s : String) :
    (trim s).toList.dropWhile isWhiteSpace = (trim s).toList := by
  rw [toList_trim]
  rcases hl : (s.toList.dropWhile isWhiteSpace).rdropWhile isWhiteSpace with _ | ⟨c, l⟩
  · rfl
  · obtain ⟨r, hr⟩ := List.rdropWhile_prefix isWhiteSpace (l := s.toList.dropWhile isWhiteSpace)
    rw [hl] at hr
    refine List.dropWhile_cons_of_neg ?_
    have hne : s.toList.dropWhile isWhiteSpace ≠ [] := hr ▸ List.cons_ne_nil _ _
    have hhead := List.head_dropWhile_not isWhiteSpace hne
    simp only [← hr, List.cons_append, List.head_cons] at hhead
    rw [hhead]
    exact Bool.false_ne_true

theorem trim_trim (s : String) : trim (trim s) = trim s := by
  refine String.toList_inj.1 ?_
  rw [toList_trim, dropWhile_toList_trim, toList_trim, List.rdropWhile_idempotent]

/-- A carriage return at the end is white space. -/
theorem trim_return (l : List Char) :
    trim (String.ofList (l ++ ['\r'])) = trim (String.ofList l) := by
  refine String.toList_inj.1 ?_
  have hr : isWhiteSpace '\r' = true := by decide
  rw [toList_trim, toList_trim, String.toList_ofList, String.toList_ofList, List.dropWhile_append]
  split_ifs with he
  · rw [List.isEmpty_iff.1 he, List.dropWhile_cons_of_pos hr]
    rfl
  · rw [List.rdropWhile_concat_pos _ _ _ hr]

end Trim

section Entries

variable {text entry : String} {l : List String}

/-- A file lists what is between the ends of its lines. -/
theorem entries_eq (text : String) : entries text =
    ((text.toList.splitOn '\n').map fun line => trim (String.ofList line)).filter (· ≠ "") := by
  have hreturn (all : List (List Char)) : (all.map fun line =>
      if line.getLast? = some '\r' then line.dropLast else line).map
        (fun line => trim (String.ofList line)) = all.map fun line => trim (String.ofList line) := by
    rw [List.map_map]
    refine List.map_congr_left fun line _ => ?_
    rw [Function.comp_apply]
    split_ifs with hlast
    · obtain ⟨start, rfl⟩ := List.getLast?_eq_some_iff.1 hlast
      rw [List.dropLast_concat, trim_return]
    · rfl
  rw [entries, lines, hreturn]
  split_ifs with hlast
  · obtain ⟨start, hall⟩ := List.getLast?_eq_some_iff.1 hlast
    rw [hall, List.dropLast_concat, List.map_append, List.filter_append]
    exact (List.append_nil _).symm
  · rfl

theorem entries_append_newline (s t : String) : entries (s ++ "\n" ++ t) = entries s ++ entries t := by
  have hlist : (s ++ "\n" ++ t).toList = s.toList ++ '\n' :: t.toList := by
    rw [String.toList_append, String.toList_append, List.append_assoc]
    rfl
  rw [entries_eq, entries_eq, entries_eq, hlist, List.splitOn_append_cons_self, List.map_append,
    List.filter_append]

@[simp] theorem entries_empty : entries "" = [] := by
  rw [entries_eq]
  decide

/-- A file may end with the last line, or after it. -/
theorem entries_newline (s : String) : entries (s ++ "\n") = entries s := by
  rw [← String.append_empty (s := s ++ "\n"), entries_append_newline, entries_empty,
    List.append_nil]

theorem IsEntry.entries_eq (h : IsEntry entry) : entries entry = [entry] := by
  rw [Smrt.entries_eq, List.splitOn_eq_singleton h.line, List.map_singleton, String.ofList_toList,
    h.trim, List.filter_cons, if_pos (decide_eq_true h.ne), List.filter_nil]

/-- A file lists what it did, and what is added to it. -/
theorem entries_addLine (text : String) (h : IsEntry entry) :
    entries (addLine text entry) = entries text ++ [entry] := by
  rw [addLine, entries_newline]
  split_ifs with hends
  · rw [entries_append_newline, h.entries_eq]
  · by_cases hempty : text = ""
    · rw [hempty, String.empty_append, entries_empty, h.entries_eq, List.nil_append]
    · have hlast : text.toList.getLast? = some '\n' := by
        by_contra hne
        exact hends ⟨hempty, hne⟩
      obtain ⟨start, hstart⟩ := List.getLast?_eq_some_iff.1 hlast
      have htext : text = String.ofList start ++ "\n" := by
        refine String.toList_inj.1 ?_
        rw [hstart, String.toList_append, String.toList_ofList]
        rfl
      rw [htext, entries_append_newline, entries_newline, h.entries_eq]

/-- What a file lists can be listed. -/
theorem isEntry_of_mem_entries (h : entry ∈ entries text) : IsEntry entry := by
  rw [Smrt.entries_eq] at h
  obtain ⟨hmem, hne⟩ := List.mem_filter.1 h
  obtain ⟨line, hline, rfl⟩ := List.mem_map.1 hmem
  refine ⟨of_decide_eq_true hne, trim_trim _, fun hn => ?_⟩
  rw [toList_trim, String.toList_ofList] at hn
  have hin : '\n' ∈ line := (List.dropWhile_sublist _).subset
    ((List.rdropWhile_prefix _ _).subset hn)
  exact (mem_splitOn (d := '\n') line hline).1 hin

/-- A file of some lines lists them. -/
theorem entries_writeLines (h : ∀ e ∈ l, IsEntry e) : entries (writeLines l) = l := by
  have hjoin : entries (String.ofList (['\n'].intercalate (l.map String.toList))) = l := by
    rcases l with _ | ⟨e, l⟩
    · exact entries_empty
    · have hlines : ∀ line ∈ (e :: l).map String.toList, '\n' ∉ line := by
        intro line hline
        obtain ⟨e', he', rfl⟩ := List.mem_map.1 hline
        exact (h e' he').line
      rw [Smrt.entries_eq, String.toList_ofList,
        List.splitOn_intercalate '\n' hlines (List.cons_ne_nil _ _), List.map_map]
      have htrim : (e :: l).map ((fun line => trim (String.ofList line)) ∘ String.toList) =
          e :: l := by
        refine (List.map_congr_left fun e' he' => ?_).trans (List.map_id _)
        rw [Function.comp_apply, String.ofList_toList, (h e' he').trim, id]
      rw [htrim]
      exact List.filter_eq_self.2 fun e' he' => decide_eq_true (h e' he').ne
  rw [writeLines]
  split_ifs
  · rw [entries_newline, hjoin]
  · exact hjoin

end Entries

end Smrt
