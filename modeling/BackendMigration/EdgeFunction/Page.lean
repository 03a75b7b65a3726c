/-! The source text of edge functions. -/
namespace BackendMigration.EdgeFunction

/-- Lines of text, each with its line feed. -/
def linesText (lines : List String) : String := String.join (lines.map (· ++ "\n"))

def imports : String :=
  linesText
    ["import \x7b serve \x7d from \"https://deno.land/std@0.168.0/http/server.ts\"",
      "import \x7b createClient \x7d from 'supabase'"]

/-- The declaration of the headers that let browsers call from other origins. -/
def corsHeaders : String :=
  linesText
    ["const corsHeaders = \x7b",
      "  'Access-Control-Allow-Origin': '*',",
      "  'Access-Control-Allow-Headers': 'authorization, x-client-info, apikey, content-type',",
      "\x7d"]

def client : String :=
  linesText
    ["    const supabaseClient = createClient(",
      "      Deno.env.get('SUPABASE_URL')!,",
      "      Deno.env.get('SUPABASE_SERVICE_ROLE_KEY')!",
      "    )"]

/-- The start of the handler of a function that browsers call. -/
def preflight : List String :=
  ["serve(async (req) => \x7b",
    "  if (req.method === 'OPTIONS') \x7b",
    "    return new Response('ok', \x7b headers: corsHeaders \x7d)",
    "  \x7d",
    "",
    "  try \x7b"]

/-- The end of the handler of a function that browsers call. -/
def corsFailure : List String :=
  ["  \x7d catch (error) \x7b",
    "    console.error('Function error:', error)",
    "    return new Response(",
    "      JSON.stringify(\x7b error: error.message \x7d),",
    "      \x7b status: 500, headers: \x7b ...corsHeaders, 'Content-Type': 'application/json' \x7d \x7d",
    "    )",
    "  \x7d",
    "\x7d)",
    ""]

/-- The end of the handler of a function that a service calls. -/
def failure (title : String) : List String :=
  ["  \x7d catch (error) \x7b",
    "    console.error('" ++ title ++ " error:', error)",
    "    return new Response(",
    "      JSON.stringify(\x7b error: error.message \x7d),",
    "      \x7b status: 500, headers: \x7b 'Content-Type': 'application/json' \x7d \x7d",
    "    )",
    "  \x7d",
    "\x7d)",
    ""]

/-- A function that answers requests. -/
def httpPage (name body notes : String) : String :=
  linesText
    (["// Migrated from Firebase HTTP function: " ++ name, imports, corsHeaders] ++ preflight ++
      [client,
        "    let result",
        "",
        body,
        "",
        "    return new Response(",
        "      JSON.stringify(\x7b success: true, data: result \x7d),",
        "      \x7b headers: \x7b ...corsHeaders, 'Content-Type': 'application/json' \x7d \x7d",
        "    )"] ++ corsFailure) ++ notes

/-- A function that answers calls of signed-in users. -/
def callablePage (name body notes : String) : String :=
  linesText
    (["// Migrated from Firebase callable function: " ++ name, imports, corsHeaders] ++
      preflight ++
      ["    const authHeader = req.headers.get('Authorization')",
        "    if (!authHeader) \x7b",
        "      return new Response(",
        "        JSON.stringify(\x7b error: 'Missing authorization header' \x7d),",
        "        \x7b status: 401, headers: \x7b ...corsHeaders, " ++
          "'Content-Type': 'application/json' \x7d \x7d",
        "      )",
        "    \x7d",
        "",
        "    const token = authHeader.replace('Bearer ', '')",
        client,
        "    const \x7b data: \x7b user \x7d, error: authError \x7d = " ++
          "await supabaseClient.auth.getUser(token)",
        "    if (authError || !user) \x7b",
        "      return new Response(",
        "        JSON.stringify(\x7b error: 'Unauthorized' \x7d),",
        "        \x7b status: 401, headers: \x7b ...corsHeaders, " ++
          "'Content-Type': 'application/json' \x7d \x7d",
        "      )",
        "    \x7d",
        "",
        "    const data = await req.json()",
        "    let result",
        "",
        body,
        "",
        "    return new Response(",
        "      JSON.stringify(result),",
        "      \x7b headers: \x7b ...corsHeaders, 'Content-Type': 'application/json' \x7d \x7d",
        "    )"] ++ corsFailure) ++ notes

/-- A function that an event runs through a call with a shared secret. -/
def webhookPage (label name origin body notes : String) : String :=
  linesText
    (["// Migrated from Firebase " ++ label ++ " trigger: " ++ name] ++
      (if origin.isEmpty then [] else ["// Original trigger: " ++ origin]) ++
      [imports,
        "serve(async (req) => \x7b",
        "  const webhookSecret = Deno.env.get('SUPABASE_WEBHOOK_SECRET')",
        "  const authHeader = req.headers.get('authorization')",
        "",
        "  if (!authHeader || authHeader !== `Bearer $\x7bwebhookSecret\x7d`) \x7b",
        "    return new Response('Unauthorized', \x7b status: 401 \x7d)",
        "  \x7d",
        "",
        "  try \x7b",
        "    const \x7b type, table, record, old_record \x7d = await req.json()",
        client,
        body,
        "",
        "    return new Response('OK', \x7b status: 200 \x7d)"] ++ failure "Webhook") ++ notes

/-- A function that the clock runs. -/
def scheduledPage (name schedule body notes : String) : String :=
  linesText
    (["// Migrated from Firebase scheduled function: " ++ name,
      "// Original schedule: " ++ (if schedule.isEmpty then "N/A" else schedule),
      imports,
      "serve(async (req) => \x7b",
      "  const expectedAuth = `Bearer $\x7bDeno.env.get('CRON_SECRET')\x7d`",
      "",
      "  if (req.headers.get('authorization') !== expectedAuth) \x7b",
      "    return new Response('Unauthorized', \x7b status: 401 \x7d)",
      "  \x7d",
      "",
      "  try \x7b",
      client,
      body,
      "",
      "    return new Response('Scheduled task completed', \x7b status: 200 \x7d)"] ++
      failure "Scheduled function") ++ notes

/-- The comment that ends a function. -/
def notesComment (kind sourceFile : String) (notes : List String) (needsReview : Bool) : String :=
  linesText
    (["/* Migration Notes:", " * - Original trigger kind: " ++ kind] ++
      (if sourceFile.isEmpty then [] else [" * - Source file: " ++ sourceFile]) ++
      notes.map (" * - " ++ ·) ++
      (if needsReview then [" * - Search for MIGRATION_REVIEW markers before deploying"] else []) ++
      [" */"])

/-- The note on how to schedule a function. -/
def cronNote (name cron functionUrl : String) : String :=
  "\n".intercalate
    ["Schedule with pg_cron (run in the SQL editor):",
      " *   CREATE EXTENSION IF NOT EXISTS pg_cron;",
      " *   SELECT cron.schedule(",
      " *     '" ++ name ++ "',",
      " *     '" ++ cron ++ "',",
      " *     $$ SELECT net.http_post(",
      " *       url := '" ++ functionUrl ++ "',",
      " *       headers := '\x7b\"Content-Type\": \"application/json\", " ++
        "\"Authorization\": \"Bearer YOUR_CRON_SECRET\"\x7d'::jsonb",
      " *     ) $$",
      " *   );"]

/-- The script that routes changes of a table to a function. -/
def triggerScript (name table operations functionUrl : String) : String :=
  linesText
    ["-- Routes " ++ operations ++ " on " ++ table ++ " to the " ++ name ++ " Edge Function.",
      "-- Requires the pg_net extension and app.webhook_secret set to SUPABASE_WEBHOOK_SECRET.",
      "CREATE EXTENSION IF NOT EXISTS pg_net;",
      "",
      "CREATE OR REPLACE FUNCTION public.trigger_" ++ name ++ "_webhook()",
      "RETURNS TRIGGER AS $$",
      "BEGIN",
      "  PERFORM net.http_post(",
      "    url := '" ++ functionUrl ++ "',",
      "    headers := jsonb_build_object(",
      "      'Content-Type', 'application/json',",
      "      'Authorization', 'Bearer ' || current_setting('app.webhook_secret')",
      "    ),",
      "    body := jsonb_build_object(",
      "      'type', TG_OP,",
      "      'table', TG_TABLE_NAME,",
      "      'record', CASE WHEN TG_OP = 'DELETE' THEN NULL ELSE row_to_json(NEW) END,",
      "      'old_record', CASE WHEN TG_OP = 'INSERT' THEN NULL ELSE row_to_json(OLD) END",
      "    )",
      "  );",
      "  RETURN COALESCE(NEW, OLD);",
      "END;",
      "$$ LANGUAGE plpgsql SECURITY DEFINER;",
      "",
      "DROP TRIGGER IF EXISTS on_" ++ name ++ " ON " ++ table ++ ";",
      "CREATE TRIGGER on_" ++ name,
      "  AFTER " ++ operations ++ " ON " ++ table,
      "  FOR EACH ROW",
      "  EXECUTE FUNCTION public.trigger_" ++ name ++ "_webhook();"]

end BackendMigration.EdgeFunction
