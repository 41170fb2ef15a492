/-! The settings file to begin with: every setting with its standard value. -/
namespace SnippetLint.Settings

def templateLines : List String :=
  [ "# commitlens settings",
    "#",
    "# Every key is optional; the values below are the defaults.",
    "",
    "version: \"1\"",
    "",
    "# Leading characters compared when merging the fail-fast JavaScript parser's",
    "# message into the tolerant parser's messages.",
    "dedup_prefix_len: 20",
    "",
    "# Title used for snippets read from stdin without --title.",
    "default_title: \"Untitled Snippet\"",
    "",
    "# Glob patterns the directory walker skips.",
    "excluded_paths:",
    "  - \"**/node_modules/**\"",
    "",
    "# Advisory passes. Bracket scanning, parser errors and C++ keywords in C",
    "# decide validity and are always on.",
    "checks:",
    "  typos: true",
    "  missing_semicolons: true",
    "  undefined_identifiers: true",
    "  # C and C++",
    "  best_practices: true",
    "  # C only",
    "  declarations_first: true",
    "  prototypes: true",
    "  line_comments: true" ]

def template : String := String.join (templateLines.map (· ++ "\n"))

end SnippetLint.Settings
