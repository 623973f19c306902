import StyleCheck.Rule.Basic

namespace StyleCheck.Rule.Catalogue

def lines (texts : List String) : String :=
  "\n".intercalate texts

def naming : RuleModule where
  index := 1
  name := "naming"
  docs := lines
    ["",
     "Naming rules apply to module file names.",
     "",
     "Summary:",
     "",
     "- naming.WrongModuleNameViolation",
     "- naming.WrongModuleMagicNameViolation",
     "- naming.WrongModuleNamePatternViolation",
     "- naming.TooShortNameViolation",
     "- naming.TooLongNameViolation",
     "- naming.ConsecutiveUnderscoresInNameViolation",
     "- naming.UnderscoredNumberNameViolation",
     "",
     "Details:",
     "",
     "naming.WrongModuleNameViolation",
     "    Module names that say nothing about their content.",
     "",
     "naming.WrongModuleMagicNameViolation",
     "    Dunder module names other than `__init__` and `__main__`.",
     "",
     "naming.WrongModuleNamePatternViolation",
     "    Module names that are not lowercase snake case.",
     "",
     "naming.TooShortNameViolation",
     "    Module names shorter than `min_name_length`.",
     "",
     "naming.TooLongNameViolation",
     "    Module names longer than `max_name_length`.",
     "",
     "naming.ConsecutiveUnderscoresInNameViolation",
     "    Module names with `__` inside them.",
     "",
     "naming.UnderscoredNumberNameViolation",
     "    Module names with a number separated by an underscore, like `file_1`.",
     ""]

def wrongModuleName : Rule where
  name := "WrongModuleNameViolation"
  group := "naming"
  code := 100
  template := "Found wrong module name"
  target := .file
  previousCodes := []
  docs := lines
    ["Forbids `util`, `utils`, `helpers` and similar module names.", "", "versionadded: 0.1.0"]

def wrongModuleMagicName : Rule where
  name := "WrongModuleMagicNameViolation"
  group := "naming"
  code := 101
  template := "Found wrong module magic name"
  target := .file
  previousCodes := []
  docs := lines
    ["Only `__init__` and `__main__` are allowed magic module names.", "", "versionadded: 0.1.0"]

def wrongModuleNamePattern : Rule where
  name := "WrongModuleNamePatternViolation"
  group := "naming"
  code := 102
  template := "Found incorrect module name pattern"
  target := .file
  previousCodes := []
  docs := lines
    ["Module names must match `^_?[a-z][a-z0-9_]*$`.", "", "versionadded: 0.1.0"]

def tooShortName : Rule where
  name := "TooShortNameViolation"
  group := "naming"
  code := 103
  template := "Found too short name: \x7b0\x7d"
  target := .file
  previousCodes := []
  docs := lines
    ["Leading and trailing underscores do not count.", "", "versionadded: 0.1.0"]

def tooLongName : Rule where
  name := "TooLongNameViolation"
  group := "naming"
  code := 104
  template := "Found too long name: \x7b0\x7d"
  target := .file
  previousCodes := [118]
  docs := lines
    ["The limit is configured with `max_name_length`.",
     "",
     "versionadded: 0.1.0",
     "versionchanged: 0.2.0 (was 118)"]

def consecutiveUnderscoresInName : Rule where
  name := "ConsecutiveUnderscoresInNameViolation"
  group := "naming"
  code := 105
  template := "Found consecutive underscores name: \x7b0\x7d"
  target := .file
  previousCodes := []
  docs := lines
    ["Leading and trailing underscores are not checked.", "", "versionadded: 0.1.0"]

def underscoredNumberName : Rule where
  name := "UnderscoredNumberNameViolation"
  group := "naming"
  code := 106
  template := "Found underscored number name pattern: \x7b0\x7d"
  target := .file
  previousCodes := []
  docs := lines
    ["Write `file1`, not `file_1`.", "", "versionadded: 0.1.0"]

def complexity : RuleModule where
  index := 2
  name := "complexity"
  docs := lines
    ["",
     "Complexity rules limit how much a single construct does.",
     "",
     "Summary:",
     "",
     "- complexity.TooLongTupleUnpackViolation",
     "",
     "Details:",
     "",
     "complexity.TooLongTupleUnpackViolation",
     "    Unpacking into more names than `max_tuple_unpack_length`.",
     ""]

def tooLongTupleUnpack : Rule where
  name := "TooLongTupleUnpackViolation"
  group := "complexity"
  code := 200
  template := "Found too long tuple unpacking: \x7b0\x7d"
  target := .node
  previousCodes := []
  docs := lines
    ["Applies to assignments, `for` targets and comprehension targets.",
     "",
     "versionadded: 0.1.0"]

def consistency : RuleModule where
  index := 3
  name := "consistency"
  docs := lines
    ["",
     "Consistency rules pick one spelling out of several equivalent ones.",
     "",
     "Summary:",
     "",
     "- consistency.ParametersIndentationViolation",
     "- consistency.PartialFloatViolation",
     "- consistency.BadNumberSuffixViolation",
     "- consistency.WrongMagicCommentViolation",
     "- consistency.EmptyCommentViolation",
     "",
     "Details:",
     "",
     "consistency.ParametersIndentationViolation",
     "    Multi-line collections, calls, and signatures put either all elements on",
     "    the opening line or every element on its own line.",
     "",
     "consistency.PartialFloatViolation",
     "    Write `1.0` and `0.5`, not `1.` and `.5`.",
     "",
     "consistency.BadNumberSuffixViolation",
     "    Number prefixes and suffixes are lowercase: `0xFF`, `1e5`, `1j`.",
     "",
     "consistency.WrongMagicCommentViolation",
     "    A bare `noqa` silences everything; `type:` comments other than",
     "    `type: ignore` are replaced by annotations.",
     "",
     "consistency.EmptyCommentViolation",
     "    A lone `#` that does not separate paragraphs of a comment block.",
     ""]

def parametersIndentation : Rule where
  name := "ParametersIndentationViolation"
  group := "consistency"
  code := 300
  template := "Found incorrect multi-line parameters"
  target := .node
  previousCodes := []
  docs := "versionadded: 0.1.0"

def partialFloat : Rule where
  name := "PartialFloatViolation"
  group := "consistency"
  code := 301
  template := "Found partial float: \x7b0\x7d"
  target := .token
  previousCodes := []
  docs := "versionadded: 0.1.0"

def badNumberSuffix : Rule where
  name := "BadNumberSuffixViolation"
  group := "consistency"
  code := 302
  template := "Found bad number suffix: \x7b0\x7d"
  target := .token
  previousCodes := []
  docs := "versionadded: 0.1.0"

def wrongMagicComment : Rule where
  name := "WrongMagicCommentViolation"
  group := "consistency"
  code := 303
  template := "Found wrong magic comment: \x7b0\x7d"
  target := .token
  previousCodes := []
  docs := "versionadded: 0.1.0"

def emptyComment : Rule where
  name := "EmptyCommentViolation"
  group := "consistency"
  code := 304
  template := "Found empty comment"
  target := .token
  previousCodes := []
  docs := lines
    ["Empty lines inside a comment block are allowed.", "", "versionadded: 0.1.0"]

def modules : List (RuleModule × List Rule) :=
  [(naming, [wrongModuleName, wrongModuleMagicName, wrongModuleNamePattern,
     tooShortName, tooLongName, consecutiveUnderscoresInName, underscoredNumberName]),
   (complexity, [tooLongTupleUnpack]),
   (consistency, [parametersIndentation, partialFloat, badNumberSuffix, wrongMagicComment,
     emptyComment])]

def rules : List Rule :=
  modules.flatMap (·.2)

end StyleCheck.Rule.Catalogue
