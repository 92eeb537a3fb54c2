/-!
# `Overrides.Config.Example`: a configuration to start from

The example names every section. Every value in it is the default, but
for the token, the log and the store.
-/

set_option autoImplicit false

namespace Overrides.Config

/-- The example, line by line. -/
def exampleLines : List String := [
  "[server]",
  "bind = \"127.0.0.1:8787\"",
  "max_body_bytes = 65536",
  "",
  "[server.auth]",
  "mode = \"bearer_token\"",
  "bearer_tokens = [\"change-me-admin-token\"]",
  "",
  "[server.audit]",
  "enabled = true",
  "path = \"divine-guard-audit.jsonl\"",
  "",
  "[rule_store]",
  "type = \"sqlite\"",
  "path = \"divine-guard.sqlite\"",
  "busy_timeout_ms = 5000",
  "journal_mode = \"wal\"",
  "sync_mode = \"full\"",
  "",
  "[snapshot]",
  "ttl_seconds = 45",
  "max_rules = 500",
  "",
  "# Values forced on every client while a global rule sets safe_mode.",
  "# Omitted numeric overrides compile to null.",
  "[safe_mode]",
  "force_image_quality = \"low\"",
  "disable_video_autoplay = true",
  "disable_video = true",
  "disable_preloading = true",
  "max_concurrent_media_loads = 1",
  "disable_retries = true",
  "skeleton_only = true",
  "reduce_animations = true",
  "disable_ai = true"]

/-- The text of the example. -/
def exampleText : String := String.join (exampleLines.map (· ++ "\n"))

end Overrides.Config
