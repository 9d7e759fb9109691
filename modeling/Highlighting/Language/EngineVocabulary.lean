import Highlighting.Extension.Basic
import Highlighting.Language.CFamily

/-!
# C++ with the vocabulary of an engine

Sized scalar and vector types, classes of memory arenas and resource handles, and their common
methods.  The extended lexer has the tag of C++, so that it takes the place of the plain one.
-/

namespace Highlighting

namespace EngineVocabulary

/-- The groups of words, in the order in which they are tried. -/
def groups : List (Category × List String) :=
  [(.keywordType, ["S8", "S16", "S32", "S64"]),
   (.keywordType, ["U8", "U16", "U32", "U64"]),
   (.keywordType, ["Float", "Double"]),
   (.keywordType, ["float2", "float3", "float4"]),
   (.keywordType, ["vec2", "vec3", "vec4"]),
   (.nameClass, ["Flags", "Flag", "Span", "T", "Node", "Type", "Chunk"]),
   (.nameClass, ["MemoryArenaFlag", "MemoryArena", "FixedMemoryArena", "VirtualMemoryArena",
     "ScopedMemoryArena", "MemoryArenaVector", "MemoryArenaDeque", "MemoryArenaPool"]),
   (.nameClass, ["Handle", "TResourceHandle", "ResourceHandle32", "ResourceHandle64",
     "ResourceHandleManager", "HandleContainer", "ResourceContainer", "Foo", "FooHandle"]),
   (.nameFunction, ["init", "allocate", "beg", "end", "ptr", "rewind", "reset", "free",
     "growable"]),
   (.nameFunction, ["printf", "push_back", "pop_back", "push_front", "pop_front", "clear"]),
   (.nameFunction, ["createResource", "getResource", "destroyResource"]),
   (.keywordType, ["K_ASSERT", "K_ASSERT_CONDITION"])]

/-- The vocabulary as an extension of C++. -/
def extension : Extension where
  base := CFamily.cppTag
  rules := groups.map fun (category, words) => { vocabulary := ⟨category, words⟩ }

/-- The lexer of C++ with the vocabulary. -/
def lexer : Logged (Except ExtensionError Lexer) := do
  match ← CFamily.cppLexer with
  | .ok base => extension.extend base
  | .error e => pure (.error (.grammar e))

end EngineVocabulary

end Highlighting
