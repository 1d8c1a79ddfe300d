import Mathlib.Data.List.Induction

namespace OneSpark.Windows

-- A fixed-width window over a stream: the columns from `count` on of the state followed by
-- a chunk, of the state's own width.
def advance (state chunk : List α) (count : Nat) : List α := ((state ++ chunk).drop count).take state.length

def push (state : List α) (column : α) : List α := (state ++ [column]).drop 1

def recent (width : Nat) (stream : List α) : List α := stream.drop (stream.length - width)

-- A slice that is an error unless all of it is there.
def slice (columns : List α) (start width : Nat) : Option (List α) :=
  if start + width ≤ columns.length then some ((columns.drop start).take width) else none

@[simp] theorem advance_zero (state chunk : List α) : advance state chunk 0 = state := by simp [advance]

theorem advance_slice (state chunk : List α) (count : Nat) (inside : count ≤ chunk.length) :
    slice (state ++ chunk) count state.length = some (advance state chunk count) :=
  if_pos (by simp only [List.length_append]; omega)

theorem advance_whole (state chunk : List α) : advance state chunk chunk.length = (state ++ chunk).drop chunk.length := by
  unfold advance
  rw [List.take_of_length_le]
  simp

theorem advance_longer (state chunk other : List α) (count : Nat) (inside : count ≤ chunk.length) :
    advance state (chunk ++ other) count = advance state chunk count := by
  unfold advance
  rw [← List.append_assoc,List.drop_append_of_le_length (by simp only [List.length_append]; omega),
    List.take_append_of_le_length]
  simp only [List.length_drop,List.length_append]
  omega

theorem advance_take (state chunk : List α) (count : Nat) (inside : count ≤ chunk.length) :
    advance state (chunk.take count) count = advance state chunk count := by
  have joined := List.take_append_drop count chunk
  have length : (chunk.take count).length = count := by simp [inside]
  rw [← advance_longer state (chunk.take count) (chunk.drop count) count (by omega),joined]

theorem advance_succ (state chunk : List α) (column : α) :
    advance state (chunk ++ [column]) (chunk.length + 1) = push (advance state chunk chunk.length) column := by
  have whole := advance_whole state (chunk ++ [column])
  rw [List.length_append,List.length_singleton] at whole
  rw [whole,advance_whole]
  unfold push
  rw [← List.append_assoc,← List.drop_drop,List.drop_append_of_le_length (by simp)]

theorem advance_pushes (state chunk : List α) : advance state chunk chunk.length = chunk.foldl push state := by
  induction chunk using List.reverseRecOn with
  | nil => simp
  | append_singleton chunk column ih =>
      rw [List.length_append,List.length_singleton,advance_succ,ih,List.foldl_append]
      rfl

theorem advance_committed (state chunk other : List α) (count : Nat) (inside : count ≤ chunk.length) :
    advance state (chunk ++ other) count = (chunk.take count).foldl push state := by
  have length : (chunk.take count).length = count := by simp [inside]
  have pushes := advance_pushes state (chunk.take count)
  rw [length] at pushes
  rw [advance_longer state chunk other count inside,← advance_take state chunk count inside,pushes]

@[simp] theorem recent_length (width : Nat) (stream : List α) (long : width ≤ stream.length) :
    (recent width stream).length = width := by
  simp only [recent,List.length_drop]
  omega

-- The window keeps the last columns of the stream it follows.
theorem recent_advance (width : Nat) (stream chunk : List α) (long : width ≤ stream.length) :
    advance (recent width stream) chunk chunk.length = recent width (stream ++ chunk) := by
  rw [advance_whole]
  unfold recent
  rw [← List.drop_append_of_le_length (by omega),List.drop_drop]
  congr 1
  simp only [List.length_append]
  omega

theorem recent_slice (width : Nat) (stream chunk : List α) (long : width ≤ stream.length) (index : Nat)
    (inside : index < chunk.length) :
    slice (recent width stream ++ chunk) index (width + 1) =
      some (recent (width + 1) (stream ++ chunk.take (index + 1))) := by
  have length := recent_length width stream long
  unfold slice
  rw [if_pos (by simp only [List.length_append,length]; omega)]
  congr 1
  have joined := List.take_append_drop (index + 1) chunk
  have count : (chunk.take (index + 1)).length = index + 1 := by simp; omega
  have first : ((recent width stream ++ chunk).drop index).take (width + 1) =
      (recent width stream ++ chunk.take (index + 1)).drop index := by
    conv_lhs => rw [← joined,← List.append_assoc]
    rw [List.drop_append_of_le_length (by simp only [List.length_append,length,count]; omega),
      List.take_append_of_le_length (by simp only [List.length_drop,List.length_append,length,count]; omega),
      List.take_of_length_le (by simp only [List.length_drop,List.length_append,length,count]; omega)]
  rw [first]
  unfold recent
  rw [← List.drop_append_of_le_length (by omega),List.drop_drop]
  congr 1
  simp only [List.length_append,count]
  omega

end OneSpark.Windows
